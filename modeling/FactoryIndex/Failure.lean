import FactoryIndex.Value.Basic

/-!
# Failures

The ways in which an operation can fail, each with its cause. A failure has a *kind*, under which it is
reported to the caller, and a message. Failures that a file source meets on its own are passed on as
`reported`, with the kind and the message the source gives them.
-/

namespace FactoryIndex

/-- The kinds under which failures are reported. -/
inductive FailureKind where
  | notFound
  | isDirectory
  | notDirectory
  | permission
  | system
  | undecodable
  | unencodable
  | recursion
  | runtime
  | pattern
  | glob
  | expression
  | badValue
  | wrongType
  | missingKey
  | missingMember
  | overflow
  deriving Repr, DecidableEq

def FailureKind.name : FailureKind → String
  | .notFound => "FileNotFoundError"
  | .isDirectory => "IsADirectoryError"
  | .notDirectory => "NotADirectoryError"
  | .permission => "PermissionError"
  | .system => "OSError"
  | .undecodable => "UnicodeDecodeError"
  | .unencodable => "UnicodeEncodeError"
  | .recursion => "RecursionError"
  | .runtime => "RuntimeError"
  | .pattern => "PatternError"
  | .glob => "GitIgnorePatternError"
  | .expression => "error"
  | .badValue => "ValueError"
  | .wrongType => "TypeError"
  | .missingKey => "KeyError"
  | .missingMember => "AttributeError"
  | .overflow => "OverflowError"

/-- Kinds that mean that a file could not be reached. -/
def FailureKind.isSystem : FailureKind → Bool
  | .notFound | .isDirectory | .notDirectory | .permission | .system => true
  | _ => false

/-- Kinds that mean that a file could not be read as text, for whatever reason. -/
def FailureKind.isUnreadable (kind : FailureKind) : Bool := kind.isSystem || kind == .undecodable

/-- What a value is used for that is not of a kind for this. -/
inductive Misuse where
  /-- To be looked up. -/
  | key
  /-- To be gone through. -/
  | elements
  /-- To be looked into. -/
  | container
  /-- To be asked for a field. -/
  | fields
  /-- To name a file. -/
  | path
  /-- To lead on from a directory. -/
  | part
  /-- To be looked for in a path. -/
  | marker
  /-- To be searched. -/
  | searched
  | number
  /-- To be read as JSON. -/
  | document
  deriving Repr, DecidableEq

def Misuse.message (misuse : Misuse) (value : Value) : String :=
  let name := value.typeName
  match misuse with
  | key => "unhashable type: '" ++ name ++ "'"
  | elements => "'" ++ name ++ "' object is not iterable"
  | container => "argument of type '" ++ name ++ "' is not iterable"
  | fields =>
    match value with
    | .raw _ => "string indices must be integers, not 'str'"
    | _ => name ++ " indices must be integers or slices, not str"
  | path => "expected str, bytes or os.PathLike object, not " ++ name
  | part => "unsupported operand type(s) for /: 'PosixPath' and '" ++ name ++ "'"
  | marker => "'in <string>' requires string as left operand, not " ++ name
  | searched => "expected string or bytes-like object, got '" ++ name ++ "'"
  | number => "int() argument must be a string, a bytes-like object or a real number, not '" ++ name ++ "'"
  | document => "the JSON object must be str, bytes or bytearray, not " ++ name

/-- A failure with its cause. -/
inductive Failure where
  /-- A call pattern was asked for without any method. -/
  | noMethods
  /-- A call pattern was asked for with values that are not method names. -/
  | invalidMethods (methods : List Value)
  /-- A file was asked for, but there is no source to read it from. -/
  | noSource
  /-- A change of a file was announced as something that is not a kind of change. -/
  | unknownChange (kind : Value)
  /-- An event was given a level that does not exist. -/
  | unknownLevel (level : Value)
  /-- An event is to be logged at a level that does not exist. -/
  | unloggedLevel (level : Value)
  /-- A glob has nothing to match. -/
  | emptyGlob (glob : RawText)
  /-- A character class of a glob has a range that runs backward. The range is found at a place of the
  regular expression that the glob stands for. -/
  | backwardRange (low high : Point) (expression : List Point) (place : Nat)
  /-- Nothing lies under a path. -/
  | noSuchFile (path : RawText)
  /-- A directory was opened as a file. -/
  | openedDirectory (path : RawText)
  /-- A path leads through a file. -/
  | throughFile (path : RawText)
  /-- A path, or one of its parts, is longer than names may be. -/
  | nameTooLong (path : RawText)
  /-- A path holds a NUL. -/
  | nulInPath
  /-- A path holds half a surrogate pair that stands for no byte. -/
  | unencodablePath (path : RawText)
  /-- A detail of an event has the name of a field that every log record has. -/
  | reservedDetail (name : RawText)
  /-- A value has lists and objects inside each other deeper than can be followed. It is told which of the two was
  one too many. -/
  | nestedTooDeep (object : Bool)
  /-- A value is not of a kind that the operation takes. -/
  | wrongType (misuse : Misuse) (value : Value)
  /-- An item of a list of pairs cannot be gone through. -/
  | notAPair (index : Nat)
  /-- An item of a list of pairs has another number of elements. -/
  | wrongLength (index length : Nat)
  /-- A guard is given something twice. -/
  | givenTwice (name : RawText)
  /-- A text is no integer. -/
  | notAnInteger (text : RawText)
  /-- An integer is written with more digits than can be read. -/
  | tooManyDigits (count : Nat)
  /-- An integer has more digits than can be written. -/
  | unwritable
  /-- A value that is not a number at all was taken for an integer. -/
  | nanInteger
  /-- An infinite number was taken for an integer. -/
  | infiniteInteger
  /-- A number is beyond the range of double-precision numbers. -/
  | overflow
  /-- What was asked for does not have this member. -/
  | missingMember (owner member : String)
  /-- A failure that a file source or a caller's operation reports. -/
  | reported (kind : FailureKind) (message : String)
  deriving Repr, Inhabited

namespace Failure

def kind : Failure → FailureKind
  | noMethods | invalidMethods _ => .pattern
  | noSource => .runtime
  | unknownChange _ | unknownLevel _ | nulInPath | wrongLength .. | notAnInteger _ | tooManyDigits _ | unwritable
  | nanInteger => .badValue
  | emptyGlob _ => .glob
  | backwardRange .. => .expression
  | noSuchFile _ => .notFound
  | openedDirectory _ => .isDirectory
  | throughFile _ => .notDirectory
  | nameTooLong _ => .system
  | unencodablePath _ => .unencodable
  | nestedTooDeep _ => .recursion
  | unloggedLevel _ | reservedDetail _ => .missingKey
  | wrongType .. | notAPair _ | givenTwice _ => .wrongType
  | missingMember .. => .missingMember
  | overflow | infiniteInteger => .overflow
  | reported kind _ => kind

/-- The line and the column of a place, both counted from one. They are only told if there is more than
one line. -/
def lineAndColumn (text : List Point) (place : Nat) : String :=
  if text.contains (.char '\n') then
    let before := Text.split (.char '\n') (text.take place)
    " (line " ++ toString before.length ++ ", column " ++
      toString ((before.getLast?.getD []).length + 1) ++ ")"
  else ""

def digitsExceeded : String :=
  "Exceeds the limit (" ++ toString digitLimit ++ " digits) for integer string conversion"

def message : Failure → RawText
  | noMethods => "no factory methods configured"
  | invalidMethods methods => "invalid factory method names: " ++ (Value.list methods).literal
  | noSource => "FactoryExtractor has no file source"
  | unknownChange kind => kind.literal ++ " is not a valid ChangeKind"
  | unknownLevel level => level.literal ++ " is not a valid ErrorLevel"
  | unloggedLevel level => level.literal
  | emptyGlob glob => "Invalid git pattern: " ++ glob.quoted
  | backwardRange low high expression place =>
    "bad character range " ++ RawText.ofPoints [low, .char '-', high] ++ " at position " ++
      toString place ++ lineAndColumn expression place
  | noSuchFile path => "[Errno 2] No such file or directory: " ++ path.quoted
  | openedDirectory path => "[Errno 21] Is a directory: " ++ path.quoted
  | throughFile path => "[Errno 20] Not a directory: " ++ path.quoted
  | nameTooLong path => "[Errno 36] File name too long: " ++ path.quoted
  | nulInPath => "embedded null byte"
  | unencodablePath path => path.encodingFault
  | reservedDetail name => Text.quoted ("Attempt to overwrite " ++ name.quoted ++ " in LogRecord")
  | nestedTooDeep object =>
    "maximum recursion depth exceeded while decoding a JSON " ++ (if object then "object" else "array") ++
      " from a unicode string"
  | wrongType misuse value => misuse.message value
  | notAPair index => "cannot convert dictionary update sequence element #" ++ toString index ++ " to a sequence"
  | wrongLength index length =>
    "dictionary update sequence element #" ++ toString index ++ " has length " ++ toString length ++
      "; 2 is required"
  | givenTwice name =>
    if name = "level" then "factoryjump.notifications.safe_call() got multiple values for keyword argument 'level'"
    else "safe_call() got multiple values for argument '" ++ name ++ "'"
  | notAnInteger text =>
    "invalid literal for int() with base 10: " ++ String.ofList (text.quoted.toList.take 200)
  | tooManyDigits count =>
    digitsExceeded ++ ": value has " ++ toString count ++
      " digits; use sys.set_int_max_str_digits() to increase the limit"
  | unwritable => digitsExceeded ++ "; use sys.set_int_max_str_digits() to increase the limit"
  | nanInteger => "cannot convert float NaN to integer"
  | infiniteInteger => "cannot convert float infinity to integer"
  | overflow => "integer division result too large for a float"
  | missingMember owner member => "'" ++ owner ++ "' object has no attribute '" ++ member ++ "'"
  | reported .missingKey message => Text.quoted message
  | reported _ message => message

end Failure

/-- The failure that a value which is no whole number leads to. -/
def Value.NumberFault.failure (value : Value) : Value.NumberFault → Failure
  | .wrongType => .wrongType .number value
  | .notAnInteger written => .notAnInteger written
  | .tooManyDigits count => .tooManyDigits count
  | .nan => .nanInteger
  | .infinite => .infiniteInteger

end FactoryIndex
