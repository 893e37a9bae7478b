import Unroll.Text.Quoted
import Unroll.Tree.Layout

set_option autoImplicit false

/-!
# Faults

Everything that can go wrong, as a cause. The wording of a cause is in `Problem.message`, its class
in `Problem.code`. A generator may fail with faults of its own: plain texts, coded messages, and
faults wrapped around other faults. The code and the span of a fault are those of the first coded
fault in its chain of causes.
-/

namespace Unroll

inductive Code where
  | noError
  | headerSyntax
  | missingBody
  | rangeConversion
  | lexical
  | delimiter
  | expansionDepth
  | unknownGenerator
  | config
  | other (number : Int)
  deriving DecidableEq, Repr

namespace Code

def named : List (Code × String) :=
  [(.noError, "NoError"), (.headerSyntax, "HeaderSyntax"), (.missingBody, "MissingBody"),
    (.rangeConversion, "RangeConversion"), (.lexical, "Lexical"), (.delimiter, "Delimiter"),
    (.expansionDepth, "ExpansionDepth"), (.unknownGenerator, "UnknownGenerator"),
    (.config, "Config")]

/-- Codes are numbered from zero in the order of `named`. -/
def ofNumber (number : Int) : Code :=
  match number with
  | .ofNat index => ((named[index]?).map Prod.fst).getD (.other number)
  | .negSucc _ => .other number

def number : Code → Int
  | .other number => number
  | code => Int.ofNat (named.findIdx (·.1 == code))

def name : Code → Bytes
  | .other number => utf8 "ErrorCode(" ++ Bytes.signedDecimal number ++ utf8 ")"
  | code => utf8 (((named.find? (·.1 == code)).map Prod.snd).getD "")

end Code

/-- Where no token rule matches: the positions of the first byte and of the byte behind the dead
end, and the bytes between them. -/
structure Unscannable where
  first : Position
  failing : Position
  unmatched : Bytes
  deriving DecidableEq, Repr

/-- Why digits have no 64-bit value. -/
inductive NumeralError where
  | malformed (digits : Bytes)
  | tooLarge (digits : Bytes)
  deriving DecidableEq, Repr

/-- What a header needs next. -/
inductive Expectation where
  | identifier
  | keywordIn
  | integer
  | rangeOperator
  deriving DecidableEq, Repr

inductive FileError where
  | missing (name : Bytes)
  | directory (name : Bytes)
  | behindFile (name : Bytes)
  | denied (name : Bytes)
  | tooLong (name : Bytes)
  | unnameable (name : Bytes)
  deriving DecidableEq, Repr

/-- Why a settings document is refused: it is no document, it merges mappings beside a key that
cannot be compared with theirs, or it has values of the wrong type, each with its line. -/
inductive DocumentError where
  | unparsable
  | incomparableKey
  | mistyped (complaints : List (Nat × Bytes))
  deriving DecidableEq, Repr

inductive Problem where
  | unscannable (stop : Unscannable)
  | unexpectedCloser (lexeme : Bytes)
  | mismatchedCloser (expected : Bracket) (lexeme : Bytes)
  | unclosed (bracket : Bracket)
  | missingBody
  | afterBody (node : Node)
  | expected (what : Expectation) (found : Option Node)
  | loneDot
  | afterRange (node : Node)
  | unreadableNumeral (raw : Bytes) (reason : NumeralError)
  | tooDeep (limit : Int)
  | unknownGenerator (name : Bytes)
  | traceLevel (value : Bytes)
  | severalCharacters (setting : String) (value : Bytes)
  | depthNotPositive (value : Int)
  | macroName (value : Bytes)
  | malformedSettings (reason : DocumentError)
  | unreadableSettings (path : Bytes) (reason : FileError)

namespace NumeralError

def message : NumeralError → Bytes
  | .malformed digits =>
    utf8 "strconv.ParseUint: parsing " ++ Text.quoted digits ++ utf8 ": invalid syntax"
  | .tooLarge digits =>
    utf8 "strconv.ParseUint: parsing " ++ Text.quoted digits ++ utf8 ": value out of range"

end NumeralError

namespace FileError

def message : FileError → Bytes
  | .missing name => utf8 "open " ++ name ++ utf8 ": no such file or directory"
  | .directory name => utf8 "read " ++ name ++ utf8 ": is a directory"
  | .behindFile name => utf8 "open " ++ name ++ utf8 ": not a directory"
  | .denied name => utf8 "open " ++ name ++ utf8 ": permission denied"
  | .tooLong name => utf8 "open " ++ name ++ utf8 ": file name too long"
  | .unnameable name => utf8 "open " ++ name ++ utf8 ": invalid argument"

end FileError

namespace DocumentError

def message : DocumentError → Bytes
  | .unparsable => utf8 "yaml: document cannot be parsed"
  | .incomparableKey => utf8 "yaml: a collection cannot be a key beside merged mappings"
  | .mistyped complaints =>
    utf8 "yaml: unmarshal errors:" ++ complaints.flatMap fun (line, complaint) =>
      utf8 "\n  line " ++ Bytes.decimal line ++ utf8 ": " ++ complaint

end DocumentError

namespace Unscannable

def message (stop : Unscannable) : Bytes :=
  utf8 "Lexer error: could not match text starting at " ++ place stop.first ++
    utf8 " failing at " ++ place stop.failing ++ utf8 ".\n\tunmatched text: " ++
    Text.quoted stop.unmatched
where
  place (position : Position) : Bytes :=
    Bytes.decimal position.line ++ utf8 ":" ++ Bytes.decimal position.column

end Unscannable

namespace Expectation

def text : Expectation → Bytes
  | .identifier => utf8 "identifier"
  | .keywordIn => utf8 "`in`"
  | .integer => utf8 "integer literal"
  | .rangeOperator => utf8 "`..`"

end Expectation

namespace Problem

def code : Problem → Code
  | .unscannable _ => .lexical
  | .unexpectedCloser _ | .mismatchedCloser _ _ | .unclosed _ => .delimiter
  | .missingBody => .missingBody
  | .afterBody _ | .expected _ _ | .loneDot | .afterRange _ => .headerSyntax
  | .unreadableNumeral _ _ => .rangeConversion
  | .tooDeep _ => .expansionDepth
  | .unknownGenerator _ => .unknownGenerator
  | .traceLevel _ | .severalCharacters _ _ | .depthNotPositive _ | .macroName _
  | .malformedSettings _ | .unreadableSettings _ _ => .config

/-- A text between backquotes. -/
def ticked (text : Bytes) : Bytes := utf8 "`" ++ text ++ utf8 "`"

def message : Problem → Bytes
  | .unscannable _ => utf8 "cannot scan input"
  | .unexpectedCloser lexeme => utf8 "unexpected closing delimiter " ++ ticked lexeme
  | .mismatchedCloser bracket lexeme =>
    utf8 "mismatched closing delimiter: expected " ++ ticked [bracket.closer] ++ utf8 ", found " ++
      ticked lexeme
  | .unclosed bracket => utf8 "unclosed delimiter " ++ ticked [bracket.opener]
  | .missingBody => utf8 "expected a body delimited by braces `\x7b … \x7d`"
  | .afterBody node => utf8 "unexpected token " ++ ticked (Layout.shown node) ++ utf8 " after body"
  | .expected what none => utf8 "expected " ++ what.text ++ utf8 ", found end of header"
  | .expected what (some node) =>
    utf8 "expected " ++ what.text ++ utf8 ", found " ++ ticked (Layout.shown node)
  | .loneDot => utf8 "expected `..`, found `.`"
  | .afterRange node =>
    utf8 "unexpected token " ++ ticked (Layout.shown node) ++ utf8 " after range"
  | .unreadableNumeral raw _ =>
    utf8 "cannot convert " ++ ticked raw ++ utf8 " to an unsigned 64-bit integer"
  | .tooDeep limit =>
    utf8 "invocations nested deeper than " ++ Bytes.signedDecimal limit ++ utf8 " levels"
  | .unknownGenerator name => utf8 "no generator named " ++ ticked name
  | .traceLevel value =>
    utf8 "trace level must be one of Debug, Info, Error; is " ++ Text.quoted value
  | .severalCharacters setting value =>
    utf8 setting ++ utf8 " must be a single character, is " ++ Text.quoted value
  | .depthNotPositive value => utf8 "maxDepth must be positive, is " ++ Bytes.signedDecimal value
  | .macroName value => utf8 "macro must be an identifier, is " ++ Text.quoted value
  | .malformedSettings _ => utf8 "malformed config"
  | .unreadableSettings path _ => utf8 "cannot read config file " ++ path

/-- The wording of what lies behind a problem. -/
def reason? : Problem → Option Bytes
  | .unscannable stop => some stop.message
  | .unreadableNumeral _ reason => some reason.message
  | .malformedSettings reason => some reason.message
  | .unreadableSettings _ reason => some reason.message
  | _ => none

end Problem

inductive Fault where
  | plain (text : Bytes)
  | diagnosed (span : Span) (problem : Problem)
  | coded (code : Code) (span : Span) (message : Bytes)
  | wrapped (code : Code) (span : Span) (message : Bytes) (cause : Fault)
  | noted (text : Bytes) (cause : Fault)

/-- The part of a fault that has a code: the message is without the cause's text. -/
structure Diagnosis where
  code : Code
  span : Span
  message : Bytes
  reason : Option Bytes

namespace Fault

/-- A message, and behind a colon the text of its cause. -/
def withReason (message : Bytes) : Option Bytes → Bytes
  | none => message
  | some reason => message ++ utf8 ": " ++ reason

def located (code : Code) (span : Span) (message : Bytes) : Bytes :=
  code.name ++ utf8 " at " ++ span.text ++ utf8 ": " ++ message

def text : Fault → Bytes
  | .plain text => text
  | .diagnosed span problem =>
    located problem.code span (withReason problem.message problem.reason?)
  | .coded code span message => located code span message
  | .wrapped code span message cause => located code span (withReason message (some cause.text))
  | .noted text _ => text

/-- The fault that another one is built around. -/
def cause? : Fault → Option Fault
  | .plain _ | .coded _ _ _ => none
  | .diagnosed _ problem => problem.reason?.map .plain
  | .wrapped _ _ _ cause | .noted _ cause => some cause

/-- The first coded fault in the chain of causes. -/
def diagnosis? : Fault → Option Diagnosis
  | .plain _ => none
  | .diagnosed span problem => some ⟨problem.code, span, problem.message, problem.reason?⟩
  | .coded code span message => some ⟨code, span, message, none⟩
  | .wrapped code span message cause => some ⟨code, span, message, some cause.text⟩
  | .noted _ cause => cause.diagnosis?

def code (fault : Fault) : Code := (fault.diagnosis?.map Diagnosis.code).getD .noError

def span? (fault : Fault) : Option Span := fault.diagnosis?.map Diagnosis.span

/-- A fault behind a remark. -/
def remark (message : Bytes) (cause : Fault) : Fault :=
  .noted (message ++ utf8 ": " ++ cause.text) cause

/-- A fault as the reader of a named source wants it: with line, column, code and message if it is
coded. There is none if its span is out of range for a position. -/
def diagnose (name source : Bytes) (fault : Fault) : Option Fault :=
  match fault.diagnosis? with
  | none => some (.noted (name ++ utf8 ": " ++ fault.text) fault)
  | some diagnosis =>
    (diagnosis.span.position? source).map fun position =>
      .noted (name ++ utf8 ":" ++ Bytes.decimal position.line ++ utf8 ":" ++
        Bytes.decimal position.column ++ utf8 ": " ++ diagnosis.code.name ++ utf8 ": " ++
        withReason diagnosis.message diagnosis.reason) fault

/-- What stands for the diagnosis of a source without a fault. -/
def undiagnosed (name : Bytes) : Fault := .plain (name ++ utf8 ": <nil>")

end Fault

end Unroll
