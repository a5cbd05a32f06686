import ChangeCapture.Converter

/-!
# Configuration

A configuration is read from flat string properties. Five of them are recognised; all are handed on
to the connector unchanged. A property counts as present when something is left of it after
trimming.

A value that cannot be read ends the reading: first the flush timeout is looked at, then the
converter of keys, then that of values. What is missing is reported later, by `Config.problems`.

## Main definitions

* `Properties`, `Config`, `Config.ofProperties`.
* `Config.problems`: what keeps a configuration from being run.
* `ConfigError`.
-/

namespace ChangeCapture

/-- Flat properties, in the order of their names. -/
abbrev Properties := Dictionary String String

/-- The properties whose value may be unreadable. -/
inductive ConfigField where
  | flushTimeout
  | keyConverter
  | valueConverter
  deriving DecidableEq, Repr

/-- The name of a property. -/
def ConfigField.name : ConfigField → String
  | .flushTimeout => "offset.flush.timeout.ms"
  | .keyConverter => "internal.key.converter"
  | .valueConverter => "internal.value.converter"

/-- What keeps a configuration from being run. -/
inductive ConfigProblem where
  | noConnectorClass
  | noName
  | zeroTimeout
  deriving DecidableEq, Repr

namespace ConfigProblem

/-- The field that a problem is about. -/
def field : ConfigProblem → String
  | .noConnectorClass => "connector_class"
  | .noName => "name"
  | .zeroTimeout => "offset_flush_timeout_ms"

/-- The rule that a problem breaks. -/
def code : ConfigProblem → String
  | .noConnectorClass | .noName => "length"
  | .zeroTimeout => "range"

/-- The wording of a problem. -/
def message : ConfigProblem → String
  | .noConnectorClass => "'connector.class' is required"
  | .noName => "'name' is required"
  | .zeroTimeout => "'offset.flush.timeout.ms' must be positive"

end ConfigProblem

/-- Why there is no configuration, or none to run. -/
inductive ConfigError where
  /-- A property has an unreadable value, given here without the blanks around it. -/
  | invalidValue (field : ConfigField) (value : String)
  | invalid (problems : List ConfigProblem)
  deriving DecidableEq, Repr

/-- The wording of a configuration error; of several problems, each has a line. -/
def ConfigError.message : ConfigError → String
  | .invalidValue field value => "Invalid value '" ++ value ++ "' for '" ++ field.name ++ "'"
  | .invalid problems => "\n".intercalate (problems.map fun p => p.field ++ ": " ++ p.message)

/-- The configuration of one connector. -/
structure Config where
  name : String
  connectorClass : String
  /-- How long one flush may take, in milliseconds. -/
  flushTimeout : Nat
  keyConverter : ConverterKind
  valueConverter : ConverterKind
  properties : Properties
  deriving DecidableEq, Repr

namespace Config

/-- The flush timeout of a configuration that sets none. -/
def defaultFlushTimeout : Nat := 5000

/-- The greatest number of 64 bits. -/
def maxWord : Nat := Word.size - 1

/-- The value of a property without the blanks around it, if anything is left. -/
def present? (properties : Properties) (name : String) : Option String :=
  match Dictionary.get? name properties with
  | none => none
  | some raw => let value := trim raw; if value.isEmpty then none else some value

/-- The value of decimal digits, if there are some and nothing else. -/
def natOfDigits? (cs : List Char) : Option Nat :=
  if cs.isEmpty || !cs.all Char.isDigit then none
  else some (cs.foldl (fun n c => n * 10 + (c.toNat - 48)) 0)

/-- A number of 64 bits: an optional plus sign and decimal digits. -/
def parseWord? (text : String) : Option Nat :=
  let cs := match text.toList with
    | '+' :: cs => cs
    | cs => cs
  match natOfDigits? cs with
  | some n => if n ≤ maxWord then some n else none
  | none => none

/-- The flush timeout that properties set. -/
def readTimeout (properties : Properties) : Except ConfigError Nat :=
  match present? properties ConfigField.flushTimeout.name with
  | none => .ok defaultFlushTimeout
  | some value =>
    match parseWord? value with
    | some n => .ok n
    | none => .error (.invalidValue .flushTimeout value)

/-- The converter that properties name. -/
def readConverter (properties : Properties) (field : ConfigField) (default : ConverterKind) :
    Except ConfigError ConverterKind :=
  match present? properties field.name with
  | none => .ok default
  | some value =>
    match ConverterKind.parse? value with
    | some kind => .ok kind
    | none => .error (.invalidValue field value)

/-- **The configuration that properties describe.** -/
def ofProperties (properties : Properties) : Except ConfigError Config :=
  match readTimeout properties with
  | .error e => .error e
  | .ok flushTimeout =>
    match readConverter properties .keyConverter .string with
    | .error e => .error e
    | .ok keyConverter =>
      match readConverter properties .valueConverter .json with
      | .error e => .error e
      | .ok valueConverter =>
        .ok { name := (present? properties "name").getD ""
              connectorClass := (present? properties "connector.class").getD ""
              flushTimeout, keyConverter, valueConverter, properties }

/-- **The problems of a configuration**, in the order of their fields. -/
def problems (config : Config) : List ConfigProblem :=
  (if config.connectorClass.isEmpty then [.noConnectorClass] else []) ++
    (if config.name.isEmpty then [.noName] else []) ++
      if config.flushTimeout = 0 then [.zeroTimeout] else []

/-- A configuration that can be run, or its problems. -/
def validate (config : Config) : Except ConfigError Unit :=
  match config.problems with
  | [] => .ok ()
  | problems => .error (.invalid problems)

end Config

end ChangeCapture
