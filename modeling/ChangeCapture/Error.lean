import ChangeCapture.Json.Reader
import ChangeCapture.Text.Hex

/-!
# Failures

One type for each place where something can go wrong: an offset store or converter, a connector or
its task, and a run as a whole. A constructor is a cause; the wording of a cause is in one function.

## Main definitions

* `FileFault`, `Corruption`, `OffsetError`: stores and converters.
* `TaskError`: connectors and tasks.
* `ConfigError`, `RunError`: what ends a run.
-/

namespace ChangeCapture

/-- Why an operation on files fails. -/
inductive FileFault where
  | notFound
  | isDirectory
  | notDirectory
  | alreadyExists
  | timedOut
  /-- A step such as `.` stands where a name has to. -/
  | busy
  /-- A name or a path is too long. -/
  | tooLong
  /-- A path has a character that no path may have. -/
  | invalidPath
  deriving DecidableEq, Repr

/-- The name of a file fault. -/
def FileFault.name : FileFault → String
  | .notFound => "NotFound"
  | .isDirectory => "IsADirectory"
  | .notDirectory => "NotADirectory"
  | .alreadyExists => "AlreadyExists"
  | .timedOut => "TimedOut"
  | .busy => "ResourceBusy"
  | .tooLong => "InvalidFilename"
  | .invalidPath => "InvalidInput"

/-- Why stored bytes cannot be decoded. -/
inductive Corruption where
  | notText (fault : Utf8.Fault)
  | notHex (text : String) (fault : Hex.Fault)
  | reported (reason : String)
  deriving DecidableEq, Repr

/-- The wording of a corruption. -/
def Corruption.message : Corruption → String
  | .notText fault => "offset key is not UTF-8: " ++ fault.message
  | .notHex text fault => "invalid hex '" ++ text ++ "': " ++ fault.message
  | .reported reason => reason

/-- An error with the layers of context around its cause, outermost first. Only the outermost is
shown. -/
structure Report where
  shown : String
  causes : List String := []
  deriving DecidableEq, Repr

/-- What an offset store or a converter may report. -/
inductive OffsetError where
  /-- A value has no text, or a text no value. -/
  | serialization (failure : Json.Failure)
  | file (fault : FileFault)
  | corrupt (corruption : Corruption)
  /-- A snapshot is outstanding already. -/
  | flushInProgress
  /-- The background write did not come back. -/
  | flushAborted
  | other (report : Report)
  deriving DecidableEq, Repr

/-- The wording of an offset error, for those whose wording is fixed. -/
def OffsetError.message? : OffsetError → Option String
  | .corrupt c => some ("Corrupt offset data: " ++ c.message)
  | .flushInProgress => some "Offset flush already in progress"
  | .other r => some ("Offset storage error: " ++ r.shown)
  | .serialization _ | .file _ | .flushAborted => none

/-- What a connector or its task may report. -/
inductive TaskError where
  /-- The task asks for a forced shutdown; this is a signal and no failure. -/
  | interrupted
  | noTaskConfig (connector : String)
  | offset (cause : OffsetError)
  | failed (report : Report)
  deriving DecidableEq, Repr

/-- The wording of a task error, for those whose wording is fixed. -/
def TaskError.message? : TaskError → Option String
  | .interrupted => some "Task was interrupted"
  | .noTaskConfig connector =>
    some ("Connector '" ++ connector ++ "' produced no task configuration")
  | .offset cause => cause.message?.map ("Offset read failed: " ++ ·)
  | .failed report => some report.shown

end ChangeCapture
