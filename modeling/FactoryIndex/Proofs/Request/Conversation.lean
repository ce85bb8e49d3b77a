import FactoryIndex.Request.Line
import Mathlib.Data.List.Forall2
import Mathlib.Data.List.TakeWhile

/-!
# Every line is answered

A conversation answers one line after the other, and a request that goes wrong is answered like any other. Two things
end it early. A line may hold a number with too many digits, or be nested too deep: reading it fails in a way that is
not the way of a malformed line, and nobody expects that. And a response may hold a number with too many digits, which
only shows when it is written. Up to such a line each request gets one response, in order and under its own
identity; there is no other reason to stop.
-/

namespace FactoryIndex

/-- The identity that a line gives its request: that of the object it holds, or nothing. -/
def requestId (line : List Char) : Value :=
  match Value.read line with
  | .ok (.object fields) => (Value.lookup? fields "id").getD .null
  | _ => .null

/-- The requests among lines, each without the blanks around it. -/
def requestsIn (lines : List (Surroundings × List Char)) : List (Surroundings × List Char) :=
  lines.filterMap fun (here, line) => if (Text.trim line).isEmpty then none else some (here, Text.trim line)

/-- A value is the response to a request: its identity, and either a result or an error. -/
def Responds (request : Surroundings × List Char) (value : Value) : Prop :=
  ∃ body, value = .object [("id", requestId request.2), ("result", body)] ∨
    value = .object [("id", requestId request.2), ("error", body)]

/-- What is written in a conversation: the welcome, and then the responses. -/
def Conversation.written (said : Conversation) : List Value := readyMessage :: said.responses.map Response.toValue

namespace Registry

def afterLines (registry : Registry) (requests : List (Surroundings × List Char)) : Registry :=
  requests.foldl
    (fun registry request =>
      match registry.answerLine request.1 request.2 with
      | .ok reply => reply.registry
      | .error _ => registry)
    registry

/-- A request ends the conversation: it cannot be answered, or its response cannot be written. -/
def Breaks (registry : Registry) (request : Surroundings × List Char) (failure : Failure) : Prop :=
  registry.answerLine request.1 request.2 = .error failure ∨
    ∃ reply, registry.answerLine request.1 request.2 = .ok reply ∧ reply.response.line = .error failure

/-! ### One line -/

theorem responds_ofOutcome (here : Surroundings) {line : List Char} {fields : Fields}
    (hread : Value.read line = .ok (.object fields)) (outcome : Except Failure Value) :
    Responds (here, line) (Response.ofOutcome ((Value.lookup? fields "id").getD .null) outcome).toValue := by
  have hid : requestId line = (Value.lookup? fields "id").getD .null := by
    unfold requestId
    rw [hread]
  unfold Responds
  rw [hid]
  cases outcome with
  | ok value => exact ⟨_, Or.inl rfl⟩
  | error failure => exact ⟨_, Or.inr rfl⟩

theorem responds_refusal (here : Surroundings) {line : List Char}
    (hread : ∀ fields, Value.read line ≠ .ok (.object fields)) (complaint : Complaint) :
    Responds (here, line) (Response.refusal .null complaint).toValue := by
  have hid : requestId line = .null := by
    unfold requestId
    split
    · next fields hfields => exact absurd hfields (hread fields)
    · rfl
  unfold Responds
  rw [hid]
  exact ⟨_, Or.inr rfl⟩

/-- The two faults of a line that its reader does not report as malformed. -/
theorem answerLine_eq_error_iff (here : Surroundings) (line : List Char) (registry : Registry) :
    (∃ failure, registry.answerLine here line = .error failure) ↔
      (∃ count, Value.read line = .error (.tooManyDigits count)) ∨
        ∃ object, Value.read line = .error (.tooDeep object) := by
  unfold answerLine
  split
  · next hread => simp [hread]
  · next hread => simp [hread]
  · next hread => simp [hread]
  · next fields hread => simp [hread]
  · next value hvalue hread => simp [hread]

theorem responds_of_answerLine {here : Surroundings} {line : List Char} {registry : Registry} {reply : LineReply}
    (hreply : registry.answerLine here line = .ok reply) : Responds (here, line) reply.response.toValue := by
  unfold answerLine at hreply
  split at hreply
  · cases hreply
  · cases hreply
  · next hread =>
    cases hreply
    apply responds_refusal
    intro fields
    simp [hread]
  · next fields hread =>
    cases hreply
    exact responds_ofOutcome here hread _
  · next value hvalue hread =>
    cases hreply
    apply responds_refusal
    intro fields hfields
    rw [hread] at hfields
    exact hvalue fields (Except.ok.inj hfields)

/-! ### All lines -/

theorem converse_spec (lines : List (Surroundings × List Char)) (registry : Registry) :
    ∃ answered left, requestsIn lines = answered ++ left ∧
      List.Forall₂ Responds answered ((registry.converse lines).responses.map Response.toValue) ∧
      match (registry.converse lines).failure with
      | none => left = []
      | some failure =>
          ∃ request rest, left = request :: rest ∧ (registry.afterLines answered).Breaks request failure := by
  induction lines generalizing registry with
  | nil => exact ⟨[], [], rfl, .nil, rfl⟩
  | cons first rest ih =>
      obtain ⟨here, line⟩ := first
      unfold converse
      by_cases hblank : (Text.trim line).isEmpty = true
      · have hskip : requestsIn ((here, line) :: rest) = requestsIn rest := by
          simp only [requestsIn, List.filterMap_cons, hblank, if_true]
        simp only [hskip, hblank, if_true]
        exact ih registry
      · have hask : requestsIn ((here, line) :: rest) = (here, Text.trim line) :: requestsIn rest := by
          simp only [requestsIn, List.filterMap_cons, hblank, Bool.false_eq_true, if_false]
        simp only [hask, hblank, Bool.false_eq_true, if_false]
        cases hanswer : registry.answerLine here (Text.trim line) with
        | error failure => exact ⟨[], _, rfl, .nil, _, _, rfl, Or.inl hanswer⟩
        | ok reply =>
            cases hline : reply.response.line with
            | error failure =>
                simp only [hline]
                exact ⟨[], _, rfl, .nil, _, _, rfl, Or.inr ⟨reply, hanswer, hline⟩⟩
            | ok written =>
                -- The rest of the conversation goes on from the registry that the request leaves.
                obtain ⟨answered, left, hsplit, hresponds, hend⟩ := ih reply.registry
                simp only [hline]
                refine ⟨(here, Text.trim line) :: answered, left, ?_, ?_, ?_⟩
                · rw [hsplit, List.cons_append]
                · exact .cons (responds_of_answerLine hanswer) hresponds
                · have hafter : registry.afterLines ((here, Text.trim line) :: answered) =
                      reply.registry.afterLines answered := by
                    simp only [afterLines, List.foldl_cons, hanswer]
                  rw [hafter]
                  exact hend

end Registry

/-- **Every line is answered.** A conversation starts with the welcome. Each line that is not blank then gets one
response, in the order of the lines: an object with the identity of the request, which is nothing if the line holds
no object or one without an identity, and with a result or an error. The conversation only ends before the last line
at a request that cannot be answered, because its line holds a number with too many digits or is nested too deep, or
whose response holds a number with too many digits to be written. -/
theorem lines_answered (lines : List (Surroundings × List Char)) (registry : Registry) :
    (∃ answered left, requestsIn lines = answered ++ left ∧
      (∃ responses, (registry.converse lines).written = readyMessage :: responses ∧
        List.Forall₂ Responds answered responses) ∧
      ((registry.converse lines).failure = none ↔ left = []) ∧
      (∀ request rest, left = request :: rest →
        ∃ failure, (registry.converse lines).failure = some failure ∧
          (registry.afterLines answered).Breaks request failure)) ∧
    ∀ here line (registry : Registry), (∃ failure, registry.answerLine here line = .error failure) ↔
      (∃ count, Value.read line = .error (.tooManyDigits count)) ∨
        ∃ object, Value.read line = .error (.tooDeep object) := by
  refine ⟨?_, Registry.answerLine_eq_error_iff⟩
  obtain ⟨answered, left, hsplit, hresponds, hend⟩ := registry.converse_spec lines
  refine ⟨answered, left, hsplit, ⟨_, rfl, hresponds⟩, ?_⟩
  cases hfailure : (registry.converse lines).failure with
  | none =>
      rw [hfailure] at hend
      refine ⟨iff_of_true rfl hend, fun request rest hleft => ?_⟩
      rw [hend] at hleft
      cases hleft
  | some failure =>
      rw [hfailure] at hend
      obtain ⟨request, rest, hleft, hbreaks⟩ := hend
      refine ⟨iff_of_false (by simp) (by simp [hleft]), fun other more hother => ?_⟩
      rw [hleft] at hother
      cases hother
      exact ⟨failure, rfl, hbreaks⟩

/-! ### A number with too many digits -/

namespace Value

theorem readNumber_of_tooManyDigits {digits : List Char} (hdigits : ∀ c ∈ digits, c.isDigit = true)
    (hfirst : digits.head? ≠ some '0') (hlength : digitLimit < digits.length) (negative : Bool) :
    readNumber negative digits = .error (.tooManyDigits digits.length) := by
  have htake : digits.takeWhile Char.isDigit = digits := List.takeWhile_eq_self_iff.2 hdigits
  have hwhole : wholeDigits digits = digits := by
    unfold wholeDigits
    split
    · next rest => exact absurd rfl hfirst
    · exact htake
  have hnonempty : digits.isEmpty = false := by
    cases digits with
    | nil => simp at hlength
    | cons c rest => rfl
  unfold readNumber
  simp only [hwhole, hnonempty, List.drop_length, readFraction, readExponent, Option.elim_none, Bool.false_eq_true,
    if_false]
  rw [if_neg (by omega)]

theorem read_replicate_one {n : Nat} (hn : digitLimit < n) :
    read (List.replicate n '1') = .error (.tooManyDigits n) := by
  have hnumber : readNumber false (List.replicate n '1') =
      .error (.tooManyDigits (List.replicate n '1').length) := by
    apply readNumber_of_tooManyDigits
    · intro c hc
      rw [List.eq_of_mem_replicate hc]
      decide
    · rw [List.head?_replicate]
      split <;> decide
    · rwa [List.length_replicate]
  have hskip : skipSpacing (List.replicate n '1') = List.replicate n '1' := by
    unfold skipSpacing
    rw [List.dropWhile_replicate]
    rfl
  unfold read
  rw [hskip]
  cases n with
  | zero => omega
  | succ n =>
      rw [List.replicate_succ] at hnumber ⊢
      have hvalue : ∀ fuel, readValue (fuel + 1) nestingLimit ('1' :: List.replicate n '1') =
          readNumber false ('1' :: List.replicate n '1') := fun fuel => rfl
      rw [hvalue, hnumber, List.length_cons, List.length_replicate]
      rfl

end Value

theorem trim_replicate_one (n : Nat) : Text.trim (List.replicate n '1') = List.replicate n '1' := by
  have hblank : Text.isBlank '1' = false := by decide
  simp [Text.trim, Text.trimRight, hblank]

theorem requestsIn_long_number {n : Nat} (hn : 0 < n) (here : Surroundings)
    (rest : List (Surroundings × List Char)) :
    requestsIn ((here, List.replicate n '1') :: rest) = (here, List.replicate n '1') :: requestsIn rest := by
  have hask : (List.replicate n '1').isEmpty = false := by
    rw [List.isEmpty_replicate]
    exact decide_eq_false (by omega)
  simp only [requestsIn, List.filterMap_cons, trim_replicate_one, hask, Bool.false_eq_true, if_false]

theorem converse_long_number {n : Nat} (hn : digitLimit < n) (here : Surroundings)
    (rest : List (Surroundings × List Char)) (registry : Registry) :
    registry.converse ((here, List.replicate n '1') :: rest) = { failure := some (.tooManyDigits n) } := by
  have hask : (List.replicate n '1').isEmpty = false := by
    rw [List.isEmpty_replicate]
    exact decide_eq_false (by omega)
  have hanswer : registry.answerLine here (List.replicate n '1') = .error (.tooManyDigits n) := by
    unfold Registry.answerLine
    rw [Value.read_replicate_one hn]
  unfold Registry.converse
  simp only [trim_replicate_one, hask, hanswer, Bool.false_eq_true, if_false]

/-- A line that is a number with one digit too many. It gets no response, and neither does the request behind it. -/
theorem long_number_unanswered :
    let here : Surroundings := { tree := {}, clock := ⟨reading 1000000, reading 1000000000⟩ }
    let lines := [(here, List.replicate 4301 '1'), (here, ['\x7b', '\x7d'])]
    (requestsIn lines).length = 2 ∧ (Registry.converse lines .empty).responses = [] ∧
      (Registry.converse lines .empty).failure = some (.tooManyDigits 4301) := by
  intro here lines
  have hrequests := requestsIn_long_number (n := 4301) (by decide) here [(here, ['\x7b', '\x7d'])]
  have hend := converse_long_number (n := 4301) (by decide) here [(here, ['\x7b', '\x7d'])] .empty
  refine ⟨?_, ?_, ?_⟩
  · rw [hrequests]
    rfl
  · rw [hend]
  · rw [hend]

end FactoryIndex
