import GraphQLSyntax.Text.Escaped
import GraphQLSyntax.Text.Space

/-!
# Log records

A record is written on a line that starts with its level and origin. Its message is kept from steering
the terminal it may be read on, but it may go on over more lines.
-/

set_option autoImplicit false

namespace GraphQLSyntax

inductive LogLevel where
  | trace
  | debug
  | info
  | warn
  | error
  deriving DecidableEq, Repr

namespace LogLevel

def text : LogLevel → String
  | trace => "TRACE"
  | debug => "DEBUG"
  | info => "INFO"
  | warn => "WARN"
  | error => "ERROR"

def severity : LogLevel → Nat
  | trace => 0
  | debug => 1
  | info => 2
  | warn => 3
  | error => 4

/-- The level that a word in lower case names. No word names the usual one. -/
def ofWord? (word : String) : Option LogLevel :=
  if word = "" then some info
  else if word = "trace" then some trace
  else if word = "debug" ∨ word = "verbose" then some debug
  else if word = "info" then some info
  else if word = "warn" ∨ word = "warning" then some warn
  else if word = "error" then some error
  else none

end LogLevel

inductive LogOrigin where
  | main
  | parse
  | check
  deriving DecidableEq, Repr

structure LogRecord where
  level : LogLevel
  origin : LogOrigin
  message : String
  deriving DecidableEq, Repr

/-- What a character of a message is written as. -/
def loggedChar (c : Char) : List Char :=
  let n := c.toNat
  if n = 0x7 || n = 0x8 || n = 0xC || n = 0x1B || n = 0x7F then
    ['\\', 'x'] ++ padDigits 2 (lowerHex n)
  else if 0x80 ≤ n && n ≤ 0x9F then codePointEscape c
  else [c]

namespace LogRecord

def writtenMessage (r : LogRecord) : List Char :=
  r.message.toList.flatMap loggedChar

/-- The part of the message on the record's first line. -/
def headline (r : LogRecord) : String :=
  String.ofList (r.writtenMessage.takeWhile (· != '\n'))

/-- The further lines of the message, which nothing tells from other text. -/
def furtherLines (r : LogRecord) : String :=
  match r.writtenMessage.dropWhile (· != '\n') with
  | [] => ""
  | _ :: rest => String.ofList rest ++ "\n"

end LogRecord

/-- The level at which to log, and what to warn of. Asking for verbose output wins over a setting. -/
def resolveLogLevel (verbose : Bool) (setting : Option String) : LogLevel × List LogRecord :=
  if verbose then (.debug, [])
  else
    match setting with
    | none => (.info, [])
    | some raw =>
      match LogLevel.ofWord? (String.ofList ((trimSpace raw.toList).map Char.toLower)) with
      | some level => (level, [])
      | none =>
        (.info, [⟨.warn, .main,
          "Invalid `LOG_LEVEL` environment variable value: `" ++ raw ++ "`"⟩])

/-- The first record of a run, and the warnings about its level. -/
def startRecords (level : LogLevel) (warnings : List LogRecord) : List LogRecord :=
  ⟨.trace, .main, "Initial logging level set to `" ++ level.text ++ "`."⟩ :: warnings

def enabledRecords (level : LogLevel) (records : List LogRecord) : List LogRecord :=
  records.filter fun r => level.severity ≤ r.level.severity

end GraphQLSyntax
