import FactoryIndex.Request.Line

/-!
# The command line

The program is started either for a single command, or to hold a conversation. Options may be shortened
as long as it is clear which one is meant, and their values follow as the next argument or behind an equals
sign; of several values for one option the last one counts. Two dashes separate options from other
arguments, so as a value they are none: they leave the option without a value. Arguments that are no
options are refused, and so are options that do not exist, once all arguments have been looked at.
-/

namespace FactoryIndex.CommandLine

inductive Flag where
  | help
  | sidecar
  | command
  | project
  | args
  | logLevel
  deriving Repr, DecidableEq

namespace Flag

def all : List Flag := [help, sidecar, command, project, args, logLevel]

def spelling : Flag → String
  | help => "--help"
  | sidecar => "--sidecar"
  | command => "--command"
  | project => "--project"
  | args => "--args"
  | logLevel => "--log-level"

/-- The options that a shortened spelling may mean. -/
def matching (short : List Char) : List Flag := all.filter fun flag => short.isPrefixOf flag.spelling.toList

end Flag

/-- What an argument looks like. -/
inductive Token where
  | plain (text : String)
  | flag (name : Flag) (value : Option String)
  | unknown
  | ambiguous
  | separator
  deriving Repr, DecidableEq

def isDigits (text : List Char) : Bool := !text.isEmpty && text.all fun c => (Text.decimalValue? c).isSome

/-- Whether a text without its minus sign is written like a number; one line break may follow. -/
def isNumeral (text : List Char) : Bool :=
  let text := if text.getLast? = some '\n' then text.dropLast else text
  match Text.split '.' text with
  | [whole] => isDigits whole
  | [whole, fraction] => (whole.isEmpty || isDigits whole) && isDigits fraction
  | _ => false

/-- An argument that starts with a dash and is no option: negative numbers and texts with blanks are not
meant to be options. -/
def dashed (text : String) : Token :=
  if isNumeral text.toList.tail || text.toList.contains ' ' then .plain text else .unknown

/-- The part of an argument before its first equals sign, and the value behind it. -/
def splitValue (text : List Char) : List Char × Option String :=
  match text.dropWhile (· != '=') with
  | [] => (text, none)
  | _ :: value => (text.takeWhile (· != '='), some (String.ofList value))

/-- The short form of the option for help with something attached. It may be repeated, also behind an
equals sign, and takes nothing else. -/
def shortHelp (attached : List Char) : Token :=
  let repeated := match attached with
    | '=' :: c :: rest => c :: rest
    | _ => attached
  if repeated.all (· == 'h') then .flag .help none else .flag .help (some (String.ofList attached))

def Token.ofArgument (text : String) : Token :=
  match text.toList with
  | ['-', '-'] => .separator
  | '-' :: '-' :: _ =>
    let (name, value) := splitValue text.toList
    match Flag.matching name with
    | [option] => .flag option value
    | [] => dashed text
    | _ => .ambiguous
  | ['-'] => .plain text
  | '-' :: 'h' :: attached => shortHelp attached
  | '-' :: _ => dashed text
  | _ => .plain text

/-- What the options ask for. An option may be left without a value. -/
structure Options where
  sidecar : Bool := false
  command : Option String := none
  project : Option String := none
  args : Option String := some "\x7b\x7d"
  logLevel : Option String := some "WARNING"
  deriving Repr, DecidableEq

/-- Why the options are not followed. -/
inductive Stop where
  | help
  | misuse
  | failure (failure : Failure)
  deriving Repr

def valueOf (written : String) : Option String := if written = "--" then none else some written

def Options.set (options : Options) (flag : Flag) (written : String) : Except Stop Options :=
  let value := valueOf written
  match flag with
  | .help | .sidecar => .error .misuse
  | .command => .ok { options with command := value }
  | .project => .ok { options with project := value }
  | .args => .ok { options with args := value }
  | .logLevel => .ok { options with logLevel := value }

/-- Follows arguments from left to right. `stray` tells that one of those before had no place. -/
def Options.follow (options : Options) (stray : Bool) : List Token → Except Stop Options
  | [] => if stray then .error .misuse else .ok options
  | .separator :: _ | .ambiguous :: _ => .error .misuse
  | .plain _ :: rest | .unknown :: rest => options.follow true rest
  | .flag name (some value) :: rest =>
    match options.set name value with
    | .ok options => options.follow stray rest
    | .error stop => .error stop
  | .flag .help none :: _ => .error .help
  | .flag .sidecar none :: rest => { options with sidecar := true }.follow stray rest
  | .flag name none :: .plain value :: rest =>
    match options.set name value with
    | .ok options => options.follow stray rest
    | .error stop => .error stop
  | .flag _ none :: _ => .error .misuse

/-- What the program is started for. -/
inductive Invocation where
  | conversation
  | command (name project : String) (args : Option String)
  deriving Repr, DecidableEq

/-- A value that is there and is not empty. -/
def given? (value : Option String) : Option String := value.filter fun text => !text.isEmpty

/-- What the program is started for, and how serious a record must be to be logged. There is always a level
to be told; without a conversation there must be a command and a project. -/
def Options.invocation (options : Options) : Except Stop (Invocation × Level) :=
  match options.logLevel with
  | none => .error (.failure (.missingMember "NoneType" "upper"))
  | some level =>
    let level := Level.ofLogName level
    if options.sidecar then .ok (.conversation, level)
    else
      match given? options.command, given? options.project with
      | some name, some project => .ok (.command name project options.args, level)
      | _, _ => .error .misuse

/-- The options that arguments ask for. None is followed if one of them is ambiguous. -/
def Options.ofArguments (arguments : List String) : Except Stop Options :=
  let tokens := arguments.map Token.ofArgument
  if (tokens.takeWhile (· != .separator)).contains .ambiguous then .error .misuse
  else Options.follow {} false tokens

/-! ### A single command -/

/-- What a single command gives: the log, and the answer or what went wrong. -/
structure Run where
  log : List LogRecord
  outcome : Except Complaint Value

/-- Runs a single command whose arguments are written as JSON. If nothing is written at all, or a number with
too many digits, or a value that is nested too deep, that is a failure that is not reported. -/
def runCommand (here : Surroundings) (name project : String) (args : Option String) :
    Except Failure Run :=
  match args with
  | none => .error (.wrongType .document .null)
  | some args =>
    match Value.read args.toList with
    | .error (.tooManyDigits count) => .error (.tooManyDigits count)
    | .error (.tooDeep object) => .error (.nestedTooDeep object)
    | .error (.malformed flaw left) =>
      .ok ⟨[], .error ⟨"InvalidArgs", "Failed to parse --args JSON: " ++ flaw.message args.toList left⟩⟩
    | .ok args =>
      let reply := Registry.dispatch here (.text name) (.text project) args .empty
      .ok ⟨reply.log, reply.outcome.mapError Failure.complaint⟩

end FactoryIndex.CommandLine
