import ChangeCapture.Config
import ChangeCapture.Text.Letter

/-!
# Configuration from the environment

An environment lists its variables in some order. A variable whose name starts with
`EMBEDDED_CONNECTOR_` is a property: the rest of its name in lower case, with a point for every
underscore. Several variables may name one property; the last listed wins.

An environment file adds variables that are not set yet. It is read line by line and the first line
that cannot be read ends it. A line is `NAME=value`, with an optional `export`, comments after `#`,
quotes, and `$NAME` or `${NAME}` outside single quotes.

## Main definitions

* `Environment`, `Environment.get?`, `Environment.load`.
* `Config.ofEnvironment`.
-/

namespace ChangeCapture

/-- The variables of a process, in the order in which it lists them. -/
abbrev Environment := List (String × String)

namespace Environment

/-- What the names of this program's variables start with. -/
def marker : String := "EMBEDDED_CONNECTOR_"

/-- The value of a variable. -/
def get? (name : String) : Environment → Option String
  | [] => none
  | (k, v) :: env => if name = k then some v else get? name env

/-- Adds a variable at the end, unless it is set. -/
def provide (env : Environment) (name value : String) : Environment :=
  match get? name env with
  | some _ => env
  | none => env ++ [(name, value)]

/-! ### The value of a line -/

/-- What the next character of a value means. -/
inductive Mode where
  /-- It stands for itself unless it is special. -/
  | plain
  /-- It stands for itself unless it is a single quote. -/
  | single
  /-- It follows a backslash. -/
  | escape
  /-- The value has ended; a comment may follow. -/
  | ended
  /-- It may continue the name after a dollar sign, given in reverse. -/
  | name (reversed : List Char)
  /-- It may continue the name in braces after a dollar sign, given in reverse. -/
  | braced (reversed : List Char)

/-- The reading of a value: the text so far in reverse, and whether a double quote is open. -/
structure Scan where
  mode : Mode := .plain
  quoted : Bool := false
  reversed : List Char := []

/-- Appends the value of a variable; an unset one has none. -/
def Scan.expand (env : Environment) (reversedName : List Char) (scan : Scan) : Scan :=
  let value := (get? (String.ofList reversedName.reverse) env).getD ""
  { scan with reversed := value.toList.reverse ++ scan.reversed }

/-- Appends a character. -/
def Scan.push (c : Char) (scan : Scan) : Scan :=
  { scan with reversed := c :: scan.reversed }

/-- A character that stands for itself or is special. -/
def Scan.plainStep (c : Char) (scan : Scan) : Scan :=
  if c = '$' then { scan with mode := .name [] }
  else if c = '\\' then { scan with mode := .escape }
  else if c = '"' then { scan with quoted := !scan.quoted }
  else if scan.quoted then scan.push c
  else if c = '\'' then { scan with mode := .single }
  else if c = ' ' || c = '\t' then { scan with mode := .ended }
  else scan.push c

/-- One character of a value; none where it cannot stand. -/
def Scan.step (env : Environment) (scan : Scan) (c : Char) : Option Scan :=
  match scan.mode with
  | .plain => some (scan.plainStep c)
  | .single =>
    if c = '\'' then some { scan with mode := .plain } else some (scan.push c)
  | .escape =>
    let scan := { scan with mode := .plain }
    if c = '\\' || c = '\'' || c = '"' || c = '$' || c = ' ' then some (scan.push c)
    else if c = 'n' then some (scan.push '\n')
    else none
  | .ended => if c = ' ' || c = '\t' then some scan else none
  | .name reversed =>
    if isLetterOrDigit c then some { scan with mode := .name (c :: reversed) }
    else if c = '\x7b' && reversed.isEmpty then some { scan with mode := .braced [] }
    else
      let scan := scan.expand env reversed
      if c = '$' then some { scan with mode := .name [] }
      else some ({ scan with mode := .plain }.push c)
  | .braced reversed =>
    if c = '\x7d' then some ({ scan with mode := .plain }.expand env reversed)
    else some { scan with mode := .braced (c :: reversed) }

/-- The text of a value that has been read to its end; none while a quote or a brace is open. -/
def Scan.finish (env : Environment) (scan : Scan) : Option String :=
  let text (scan : Scan) := String.ofList scan.reversed.reverse
  match scan.mode with
  | .single | .braced _ => none
  | .name reversed => if scan.quoted then none else some (text (scan.expand env reversed))
  | _ => if scan.quoted then none else some (text scan)

/-- Reads a value up to its end or a comment after it. -/
def Scan.run (env : Environment) (scan : Scan) : List Char → Option String
  | [] => scan.finish env
  | c :: cs =>
    match scan.mode with
    | .ended => if c = '#' then scan.finish env else (scan.step env c).bind (run env · cs)
    | _ => (scan.step env c).bind (run env · cs)

/-! ### Lines -/

/-- Whether a character may stand in a name. -/
def isNameChar (c : Char) : Bool :=
  c.isAlphanum || c = '_' || c = '.'

/-- A name at the start of the characters, with what follows it and the blanks after it. -/
def takeName (cs : List Char) : Option (List Char × List Char) :=
  match cs with
  | c :: _ =>
    if c.isAlpha || c = '_' then
      some (cs.takeWhile isNameChar, (cs.dropWhile isNameChar).dropWhile isBlank)
    else none
  | [] => none

/-- What follows an equals sign and the blanks after it. -/
def takeEqual : List Char → Option (List Char)
  | '=' :: cs => some (cs.dropWhile isBlank)
  | _ => none

/-- A variable and its value: what a line may set. -/
def assignment? (env : Environment) (name rest : List Char) : Option (String × String) :=
  let value := match rest with
    | [] | '#' :: _ => some ""
    | rest => Scan.run env {} rest
  value.map fun v => (String.ofList name, v)

/-- What a line says. -/
inductive Line where
  | nothing
  | sets (name value : String)
  | unreadable

/-- The line of an assignment, if there is one. -/
def Line.ofAssignment? : Option (String × String) → Line
  | some (name, value) => .sets name value
  | none => .unreadable

/-- Reads a line. The word `export` before a name is skipped, and is itself a name before an equals
sign. -/
def readLine (env : Environment) (line : List Char) : Line :=
  match trimChars line with
  | [] | '#' :: _ => .nothing
  | cs =>
    .ofAssignment? do
      let (name, rest) ← takeName cs
      match takeEqual rest with
      | some rest => assignment? env name rest
      | none =>
        if name = "export".toList then
          let (name, rest) ← takeName rest
          assignment? env name (← takeEqual rest)
        else none

/-- The lines of a text, each without its line feed and a carriage return before that. -/
def lines (text : String) : List (List Char) :=
  let unfinished := text.splitOn "\n"
  let complete := if unfinished.getLast? = some "" then unfinished.dropLast else unfinished
  complete.map fun l =>
    match l.toList.reverse with
    | '\r' :: cs => cs.reverse
    | _ => l.toList

/-- Reads lines until one is unreadable, providing each variable to those after it. -/
def loadLines (env : Environment) : List (List Char) → Environment
  | [] => env
  | line :: rest =>
    match readLine env line with
    | .nothing => loadLines env rest
    | .sets name value => loadLines (env.provide name value) rest
    | .unreadable => env

/-- **Adds the variables of an environment file** that are not set yet. -/
def load (env : Environment) (file : String) : Environment :=
  loadLines env (lines file)

/-! ### Properties -/

/-- The property that a variable names, if any. -/
def propertyName? (variableName : String) : Option String :=
  let cs := variableName.toList
  if marker.toList.isPrefixOf cs then
    let rest := (cs.drop marker.length).map Char.toLower
    some (String.ofList (rest.map fun c => if c = '_' then '.' else c))
  else none

/-- The properties that an environment sets, in the order of its variables. -/
def properties (env : Environment) : Properties :=
  Dictionary.ofList (env.filterMap fun p => (propertyName? p.1).map (·, p.2))

end Environment

/-- **The configuration that an environment describes.** -/
def Config.ofEnvironment (env : Environment) : Except ConfigError Config :=
  Config.ofProperties env.properties

end ChangeCapture
