/-!
# Notices

What the library reports to the host's log, beside the errors that it returns.

## Main definitions

* `Notice`, `Notice.level`, `Notice.text`.
-/

namespace ChangeCapture

/-- How grave a notice is. -/
inductive NoticeLevel where
  | warning
  | error
  deriving DecidableEq, Repr

/-- The name of a level. -/
def NoticeLevel.name : NoticeLevel → String
  | .warning => "WARN"
  | .error => "ERROR"

/-- What is reported. -/
inductive Notice where
  /-- A flush is begun while a snapshot is outstanding. -/
  | snapshotOutstanding
  /-- The positions of a snapshot have no bytes. -/
  | snapshotUnwritable
  /-- A flush is completed that is not the outstanding one. -/
  | staleCompletion
  /-- A stored offset is a value, but no object. -/
  | offsetNotObject
  /-- A stored offset is no value. -/
  | offsetUnreadable
  | connectorNotStarted
  | taskNotStarted
  | runFailed
  | flushNotBegun
  /-- The store answers a write with an error. -/
  | writeFailed
  | flushNotSubmitted
  | flushInterrupted
  | flushFailed
  | flushTimedOut
  deriving DecidableEq, Repr

namespace Notice

/-- The level of a notice. -/
def level : Notice → NoticeLevel
  | staleCompletion | offsetNotObject | flushInterrupted => .warning
  | _ => .error

/-- The wording of a notice. -/
def text : Notice → String
  | snapshotOutstanding => "Invalid offset flush: previous flush still in progress"
  | snapshotUnwritable => "Failed to serialize offset data, cancelling flush"
  | staleCompletion => "Ignoring completion of stale offset flush"
  | offsetNotObject => "Ignoring stored offset that is not an object"
  | offsetUnreadable => "Failed to deserialize stored offset"
  | connectorNotStarted => "Unable to start connector"
  | taskNotStarted => "Unable to start connector task"
  | runFailed => "Embedded connector failed"
  | flushNotBegun => "Unable to begin offset flush"
  | writeFailed => "Failed to flush offsets to storage"
  | flushNotSubmitted => "Flush of offsets failed before reaching storage"
  | flushInterrupted => "Flush of offsets interrupted, cancelling"
  | flushFailed => "Flush of offsets threw an unexpected error"
  | flushTimedOut => "Timed out waiting to flush offsets to storage"

end Notice

end ChangeCapture
