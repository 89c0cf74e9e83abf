import ExprCalculus.Document.Layout
import ExprCalculus.Engine.Basic
import ExprCalculus.Session.File
import ExprCalculus.Session.LogLevel

/-!
# Settings of a session

    variables
      x: 3.0
      a: 0.5
    derivative
      with_respect_to: x
    optimization
      passes: fold, identities
      until_stable: true
      max_rounds: 16
    logging
      level: info
      file: diff.log

Every section may be missing, and so may every key. The variables of a session are those of its section, or
just `x = 0` if there is none.
-/

namespace ExprCalculus

structure Settings where
  «variables» : Bindings Float
  differentiateBy : String
  passes : List Pass
  untilStable : Bool
  /-- The limit on rounds, for sessions that simplify until stable. -/
  maxRounds : Nat
  logLevel : LogLevel
  logFile : Option String

inductive ValueFault where
  | notOneValue (found : Nat)
  | notANumber
  | notAVariable (name : String)
  | unknownPass (name : String)
  | notABoolean
  | notPositive
  | unknownLevel (name : String)
  deriving DecidableEq

inductive SettingsFault where
  | file (fault : FileFault)
  | document (fault : DocumentFault)
  | invalidValue (title key : String) (fault : ValueFault)
  deriving DecidableEq

namespace ValueFault

def message : ValueFault → String
  | notOneValue found => "expected one value, found " ++ toString found
  | notANumber => "expected a number"
  | notAVariable name => "'" ++ name ++ "' is not among the variables"
  | unknownPass name => "unknown pass '" ++ name ++ "'"
  | notABoolean => "expected true or false"
  | notPositive => "expected a positive integer"
  | unknownLevel name => "unknown level '" ++ name ++ "'"

end ValueFault

namespace SettingsFault

def message : SettingsFault → String
  | file fault => "Cannot read session file: " ++ fault.message
  | document fault => "Malformed session file: " ++ fault.message
  | invalidValue title key fault =>
    "Invalid value for " ++ title ++ "." ++ key ++ ": " ++ fault.message

def hasSource : SettingsFault → Bool
  | file _ => true
  | _ => false

end SettingsFault

namespace Settings

def layout : Layout :=
  [("variables", []),
    ("derivative", ["with_respect_to"]),
    ("optimization", ["passes", "until_stable", "max_rounds"]),
    ("logging", ["level", "file"])]

/-- The settings of a session that sets nothing. -/
def default : Settings where
  «variables» := Dictionary.empty.insert "x" 0
  differentiateBy := "x"
  passes := Pass.all
  untilStable := false
  maxRounds := 16
  logLevel := .info
  logFile := none

instance : BEq Settings where
  beq c d := c.«variables» == d.«variables» && c.differentiateBy == d.differentiateBy
    && c.passes == d.passes && c.untilStable == d.untilStable && c.maxRounds == d.maxRounds
    && c.logLevel == d.logLevel && c.logFile == d.logFile

def isDefault (c : Settings) : Bool := c == default

/-! ### Reading settings -/

def valuesOf? (d : TaskDocument) (title key : String) : Option (List Document.Value) :=
  (d.get? title).bind fun content => content.get? key

/-- The only value of a setting, as far as `interpret` can make sense of it. -/
def onlyValue {α : Type} (title key : String) (interpret : Document.Value → Except ValueFault α)
    (values : List Document.Value) : Except SettingsFault α :=
  match values with
  | [value] => (interpret value).mapError (.invalidValue title key)
  | _ => .error (.invalidValue title key (.notOneValue values.length))

/-- A setting with one value, or what holds without it. -/
def setting {α : Type} (d : TaskDocument) (title key : String) (otherwise : α)
    (interpret : Document.Value → Except ValueFault α) : Except SettingsFault α :=
  match valuesOf? d title key with
  | none => .ok otherwise
  | some values => onlyValue title key interpret values

def expectNumber (value : Document.Value) : Except ValueFault Float :=
  match value.number? with
  | some x => .ok x
  | none => .error .notANumber

def expectBoolean (value : Document.Value) : Except ValueFault Bool :=
  match value.boolean? with
  | some b => .ok b
  | none => .error .notABoolean

def expectPositive (value : Document.Value) : Except ValueFault Nat :=
  match value.integer? with
  | some n => if 0 < n then .ok n.toNat else .error .notPositive
  | none => .error .notPositive

def expectPass (value : Document.Value) : Except ValueFault Pass :=
  match Pass.ofName? value.text with
  | some p => .ok p
  | none => .error (.unknownPass value.text)

def expectLevel (value : Document.Value) : Except ValueFault LogLevel :=
  match LogLevel.ofName? value.text with
  | some level => .ok level
  | none => .error (.unknownLevel value.text)

def expectText (value : Document.Value) : Except ValueFault String := .ok value.text

def variablesFrom (d : TaskDocument) : Except SettingsFault (Bindings Float) :=
  match d.get? "variables" with
  | none => .ok default.«variables»
  | some content => do
    let entries ← content.toList.mapM fun (name, values) => do
      let x ← onlyValue "variables" name expectNumber values
      return (name, x)
    return Dictionary.ofList entries

/-- The variable to differentiate by, which has to be one of the session's. -/
def differentiateByFrom (d : TaskDocument) («variables» : Bindings Float) : Except SettingsFault String := do
  let name ← setting d "derivative" "with_respect_to" default.differentiateBy expectText
  if «variables».contains name then return name
  else throw (.invalidValue "derivative" "with_respect_to" (.notAVariable name))

def passesFrom (d : TaskDocument) : Except SettingsFault (List Pass) :=
  match valuesOf? d "optimization" "passes" with
  | none => .ok default.passes
  | some values => (values.mapM expectPass).mapError (.invalidValue "optimization" "passes")

/-- The settings that a document gives. The first setting that is at fault counts, in the order of the
fields. -/
def ofDocument (d : TaskDocument) : Except SettingsFault Settings := do
  let «variables» ← variablesFrom d
  let differentiateBy ← differentiateByFrom d «variables»
  let passes ← passesFrom d
  let untilStable ← setting d "optimization" "until_stable" default.untilStable expectBoolean
  let maxRounds ← setting d "optimization" "max_rounds" default.maxRounds expectPositive
  let logLevel ← setting d "logging" "level" default.logLevel expectLevel
  let logFile ← setting d "logging" "file" default.logFile fun value => (expectText value).map some
  return { «variables», differentiateBy, passes, untilStable, maxRounds, logLevel, logFile }

def ofText (text : String) : Except SettingsFault Settings := do
  let d ← (Document.ofText (some layout) text).mapError .document
  ofDocument d

def ofFile (content : FileContent) : Except SettingsFault Settings := do
  let text ← (FileContent.text content).mapError .file
  ofText text

/-! ### Using settings -/

/-- Creates the log file of a session on a file system, if it has one. -/
def createLog (c : Settings) (fs : FileSystem) : Except SettingsFault Unit :=
  match c.logFile with
  | none => .ok ()
  | some path => (fs.create path).mapError .file

/-- The engine of a session: all operators, its variables, and its way of simplifying. -/
def engine (c : Settings) : Engine Float where
  operators := .full
  bindings := c.«variables»
  passes := c.passes
  stableRounds := if c.untilStable then some c.maxRounds else none

end Settings
end ExprCalculus
