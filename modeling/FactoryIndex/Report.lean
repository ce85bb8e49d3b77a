import FactoryIndex.Failure
import FactoryIndex.OrderedMap

/-!
# Events and log records

Nothing that can be recovered from is raised as a failure: it becomes an *event*, which a notifier
passes on. A notifier that writes a log turns each event into a log record, whose extra fields are the
message of the event, its details, and its failure; events at debug level are written only if debugging
is on.
-/

namespace FactoryIndex

/-- How serious an event is. -/
inductive Level where
  | debug
  | info
  | warning
  | error
  | fatal
  deriving Repr, DecidableEq

namespace Level

def name : Level → String
  | debug => "debug"
  | info => "info"
  | warning => "warning"
  | error => "error"
  | fatal => "fatal"

def logName : Level → String
  | debug => "DEBUG"
  | info => "INFO"
  | warning => "WARNING"
  | error => "ERROR"
  | fatal => "CRITICAL"

/-- The level with the given name. -/
def ofValue (value : Value) : Except Failure Level :=
  match value with
  | .text "debug" => .ok debug
  | .text "info" => .ok info
  | .text "warning" => .ok warning
  | .text "error" => .ok error
  | .text "fatal" => .ok fatal
  | _ => .error (.unknownLevel value)

/-- The order of levels, the least serious one first. -/
def rank : Level → Nat
  | debug => 0
  | info => 1
  | warning => 2
  | error => 3
  | fatal => 4

/-- The level that a name in the log stands for, in whatever case. Several names are synonyms, and a name
that does not exist stands for warnings. -/
def ofLogName (name : String) : Level :=
  match name.toUpper with
  | "DEBUG" | "NOTSET" => debug
  | "INFO" => info
  | "ERROR" => error
  | "CRITICAL" | "FATAL" => fatal
  | _ => warning

def concernsUser : Level → Bool
  | warning | error | fatal => true
  | debug | info => false

end Level

/-- The parts of the program that write to the log. -/
inductive Component where
  | outline
  | store
  | settings
  | workspace
  | session
  | caller
  deriving Repr, DecidableEq

def Component.name : Component → String
  | outline => "outline"
  | store => "store"
  | settings => "settings"
  | workspace => "workspace"
  | session => "session"
  | caller => "caller"

structure LogRecord where
  level : Level
  component : Component
  event : String
  extra : Fields
  deriving Repr

/-- An occurrence to be reported. `retry` tells that the operation may be tried again. -/
structure Event where
  level : Level
  context : String
  message : RawText
  error : Option Failure := none
  userMessage : Option RawText := none
  retry : Bool := false
  details : Fields := []
  deriving Repr

namespace Event

def showToUser (event : Event) : Bool := event.userMessage.isSome && event.level.concernsUser

/-- Adds a field, or replaces the one of the same name. -/
def withField (name : RawText) (value : Value) (fields : Fields) : Fields :=
  OrderedMap.put name value fields

/-- The extra fields of the record of an event. Details may replace the message; what is known about
the failure replaces details. -/
def extra (event : Event) : Fields :=
  let fields := event.details.foldl (fun fields detail => withField detail.1 detail.2 fields)
    [("detail", .raw event.message)]
  let fields := match event.error with
    | some failure =>
      withField "error_message" (.raw failure.message)
        (withField "error_type" (.text failure.kind.name) fields)
    | none => fields
  match event.userMessage with
  | some message => if message.isEmpty then fields else withField "user_message" (.raw message) fields
  | none => fields

def toRecord (component : Component) (event : Event) : LogRecord :=
  ⟨event.level, component, event.context, event.extra⟩

/-- The names of the fields that every log record has, and that details must not use. -/
def reservedFields : List RawText := [
  "name", "msg", "args", "levelname", "levelno", "pathname", "filename", "module", "exc_info",
  "exc_text", "stack_info", "lineno", "funcName", "created", "msecs", "relativeCreated", "thread",
  "threadName", "processName", "process", "message", "asctime"
]

/-- The first extra field of an event that has a reserved name. -/
def reservedField? (event : Event) : Option RawText :=
  (event.extra.map Prod.fst).find? reservedFields.contains

end Event

/-- What becomes of events: whether they are written to a log at all, and whether those at debug level
are. -/
structure Notifier where
  writesLog : Bool := true
  debug : Bool := false
  deriving Repr, DecidableEq

namespace Notifier

def writes (notifier : Notifier) (event : Event) : Bool :=
  notifier.writesLog && (notifier.debug || event.level != .debug)

def records (notifier : Notifier) (component : Component) (event : Event) : List LogRecord :=
  if notifier.writes event then [event.toRecord component] else []

/-- The log records of an event whose details come from a caller, who may have used a reserved name. -/
def checkedRecords (notifier : Notifier) (component : Component) (event : Event) :
    Except Failure (List LogRecord) :=
  match notifier.writes event, event.reservedField? with
  | true, some name => .error (.reservedDetail name)
  | _, _ => .ok (notifier.records component event)

end Notifier

/-- The event of an operation that failed, for which a fallback is used. -/
def failedOperation (level : Level) (context : String) (failure : Failure)
    (details : Fields) : Event :=
  { level := level, context := context, message := context ++ " failed", error := some failure
    details := details }

/-! ### Guarded operations

A guarded operation never fails: a failure is reported under a context, and a fallback takes the place of
the result. Whoever guards an operation may add details to the report. A detail must not have the name of
something else that the guard is given; only the level may be told by a detail, unless it is told anyway. -/

/-- What a guard is given besides the level and details. -/
def guardNames : List RawText := ["notifier", "operation", "fallback", "context"]

/-- What becomes of a guarded operation: its result, or the fallback and an event. An event whose level does
not exist can be kept, but it cannot be logged. -/
inductive Guarded (α : Type) where
  | finished (result : α)
  | reported (fallback : α) (event : Event)
  | unreported (context : String) (failure : Failure)

/-- The level at which a value asks an event to be logged. A list or an object cannot even be looked up among
the levels. -/
def Level.forLog (value : Value) : Except Failure Level :=
  match value with
  | .list _ | .object _ => .error (.wrongType .key value)
  | _ => (ofValue value).mapError fun _ => .unloggedLevel value

/-- What becomes of an operation whose failure is reported at a level that is yet to be looked up. -/
def guardedAt {α : Type} (operation : Except Failure α) (fallback : α) (context : String)
    (level : Except Failure Level) (details : Fields) : Guarded α :=
  match operation, level with
  | .ok result, _ => .finished result
  | .error failure, .ok level => .reported fallback (failedOperation level context failure details)
  | .error _, .error failure => .unreported context failure

def guarded {α : Type} (operation : Except Failure α) (fallback : α) (context : String)
    (level : Option Level) (details : Fields) : Except Failure (Guarded α) :=
  let told := Value.lookup? details "level"
  if level.isSome && told.isSome then .error (.givenTwice "level")
  else
    match details.find? fun detail => guardNames.contains detail.1 with
    | some detail => .error (.givenTwice detail.1)
    | none =>
      .ok (match level, told with
        | some level, _ => guardedAt operation fallback context (.ok level) details
        | none, none => guardedAt operation fallback context (.ok .warning) details
        | none, some value =>
          guardedAt operation fallback context (Level.forLog value)
            (details.filter fun detail => detail.1 ≠ "level"))

end FactoryIndex
