import FactoryIndex.Outline.Parse
import FactoryIndex.Report

/-!
# Outlines of many files

Files are read in groups of a bounded size. The groups follow one another in the order in which the files
were named; the reads of one group run side by side, and their results are taken in the order in which
they complete. A file that cannot be read is reported and contributes nothing; whatever goes wrong with
one file never affects the others.
-/

namespace FactoryIndex

/-- A read that has been asked for: the file, how many turns the read takes, and what it ends in. -/
structure FileRead where
  file : RawText
  delay : Nat
  outcome : Except Failure (List Char)

namespace Outline

/-- The event of a file that cannot be read. -/
def readFailure (file : RawText) (failure : Failure) : Event :=
  { level := .warning
    context := "extractor.read_failure"
    message := "Failed to read file: " ++ file
    error := some failure
    userMessage := some ("Failed to read factory file \"" ++ file ++ "\". Please ensure the " ++
      "file exists and you have access permissions.")
    details := [("file", .raw file)] }

/-- The event of a file that went wrong in any other way. -/
def itemFailure (file : RawText) (failure : Failure) : Event :=
  { level := .warning
    context := "extractor.batch_item_failure"
    message := "Unexpected error while parsing " ++ file
    error := some failure
    details := [("file", .raw file)] }

/-- The outline of a single file, with the event to report. A file that cannot be read has an empty
outline; any other failure is passed on. -/
def ofRead (mode : BlockMode) (read : FileRead) : Except Failure (Outline × List Event) :=
  match read.outcome with
  | .ok text => .ok (parse mode text read.file, [])
  | .error failure =>
    if failure.kind.isUnreadable then .ok ({}, [readFailure read.file failure]) else .error failure

/-- The outline of a file among others: every failure is reported, and none is passed on. -/
def isolated (mode : BlockMode) (read : FileRead) : Outline × List Event :=
  match ofRead mode read with
  | .ok result => result
  | .error failure => ({}, [itemFailure read.file failure])

/-- Consecutive groups of the given size, which is at least one; the last group may be smaller. -/
def groups {α : Type} (size : Nat) : List α → List (List α)
  | [] => []
  | item :: rest => (item :: rest.take (size - 1)) :: groups size (rest.drop (size - 1))
termination_by items => items.length

/-- The order in which the reads of a group complete: those that take fewer turns first, and else in the
order in which they were started. -/
def byDelay (group : List FileRead) : List FileRead :=
  group.mergeSort fun a b => decide (a.delay ≤ b.delay)

/-- The reads of all groups in the order of their completion. -/
def completed (size : Nat) (reads : List FileRead) : List FileRead := (groups size reads).flatMap byDelay

def ofCompleted (mode : BlockMode) : List FileRead → Outline × List Event
  | [] => ({}, [])
  | read :: rest =>
    let (outline, events) := isolated mode read
    let (others, otherEvents) := ofCompleted mode rest
    (outline ++ others, events ++ otherEvents)

/-- The outline of many files that are read in groups of the given size. -/
def ofFiles (mode : BlockMode) (size : Nat) (reads : List FileRead) : Outline × List Event :=
  ofCompleted mode (completed size reads)

/-- The record of a block mode that does not exist, for which the scanner is used. -/
def unknownMode (mode : Value) : LogRecord :=
  ⟨.warning, .outline, "extractor.invalid_block_mode", [
    ("mode", mode), ("fallback_mode", .text BlockMode.scanner.name)]⟩

/-- The mode that a value names, or else the scanner, which is logged. A list or an object cannot even be
looked up among the modes. -/
def modeOrScanner (mode : Value) : Except Failure (BlockMode × List LogRecord) :=
  match mode with
  | .list _ | .object _ => .error (.wrongType .key mode)
  | _ =>
    match mode.text?.bind BlockMode.ofName? with
    | some known => .ok (known, [])
    | none => .ok (.scanner, [unknownMode mode])

end Outline

end FactoryIndex
