import FactoryIndex.Request.Registry
import FactoryIndex.Value.Reader
import FactoryIndex.Value.Writer

/-!
# Request lines

A caller that keeps the program running writes one request per line, each of them a JSON object with an
`id` of its own choice, and reads one response per line. A failure becomes a response, too. The only things
that get past this are a number with more digits than can be read, or written, and a value nested deeper than
can be followed.
-/

namespace FactoryIndex

/-- What a caller is told about something that went wrong. -/
structure Complaint where
  kind : String
  message : RawText
  deriving Repr, DecidableEq

def Failure.complaint (failure : Failure) : Complaint := ⟨failure.kind.name, failure.message⟩

/-- The response to a request line. The identity is that of the request, or nothing. -/
inductive Response where
  | result (id value : Value)
  | refusal (id : Value) (complaint : Complaint)
  deriving Repr

def Response.toValue : Response → Value
  | result id value => .object [("id", id), ("result", value)]
  | refusal id complaint =>
    .object [
      ("id", id),
      ("error", .object [("type", .text complaint.kind), ("message", .raw complaint.message)])]

def Response.line (response : Response) : Except Failure String :=
  if response.toValue.writable then .ok response.toValue.write else .error .unwritable

def Response.ofOutcome (id : Value) : Except Failure Value → Response
  | .ok value => result id value
  | .error failure => refusal id failure.complaint

/-- What a request line leaves behind, and its response. -/
structure LineReply where
  registry : Registry
  log : List LogRecord
  response : Response

/-- The arguments of a request: an empty value stands for none. -/
def requestArguments (fields : Fields) : Value :=
  match Value.lookup? fields "args" with
  | some args => if args.truthy then args else .object []
  | none => .object []

def Registry.answerFields (here : Surroundings) (fields : Fields) (registry : Registry) :
    LineReply :=
  let field := fun (name : String) default => (Value.lookup? fields name).getD default
  let reply := registry.dispatch here (field "command" (.text "")) (field "project" (.text ""))
    (requestArguments fields)
  ⟨reply.registry, reply.log, .ofOutcome (field "id" .null) reply.outcome⟩

def Registry.answerLine (here : Surroundings) (line : List Char) (registry : Registry) :
    Except Failure LineReply :=
  match Value.read line with
  | .error (.tooManyDigits count) => .error (.tooManyDigits count)
  | .error (.tooDeep object) => .error (.nestedTooDeep object)
  | .error (.malformed flaw left) =>
    .ok ⟨registry, [], .refusal .null ⟨"InvalidJSON", flaw.message line left⟩⟩
  | .ok (.object fields) => .ok (registry.answerFields here fields)
  | .ok _ => .ok ⟨registry, [], .refusal .null ⟨"InvalidRequest", "request must be a JSON object"⟩⟩

/-! ### Conversations -/

/-- The message that tells the caller that requests are welcome. -/
def readyMessage : Value := .object [("status", .text "ready")]

/-- What was said in a conversation: the responses, the log, and the failure that ended it early. -/
structure Conversation where
  responses : List Response := []
  log : List LogRecord := []
  failure : Option Failure := none

/-- Answers lines one after the other, each in the surroundings it finds. Blank lines are passed over, and
so are the blanks around a request. -/
def Registry.converse : List (Surroundings × List Char) → Registry → Conversation
  | [], _ => {}
  | (here, line) :: rest, registry =>
    let request := Text.trim line
    if request.isEmpty then registry.converse rest
    else
      match registry.answerLine here request with
      | .error failure => { failure := some failure }
      | .ok reply =>
        match reply.response.line with
        | .error failure => { log := reply.log, failure := some failure }
        | .ok _ =>
          let others := reply.registry.converse rest
          { others with responses := reply.response :: others.responses, log := reply.log ++ others.log }

end FactoryIndex
