import ArrayCalc.Number.FloatFormat
import ArrayCalc.Value
import ArrayCalc.Text.Display

/-!
# Errors

An error says why a line has no result; a session reports it and goes on with the next line.  A
fault is something no line is prepared for: it ends the run that it happens in.  Both are causes,
and the wording of each cause is in one place.
-/

namespace ArrayCalc

/-! ## § Errors of evaluation -/

/-- An operand that an operator has no meaning for. -/
inductive DomainError where
  | notDefined (operator : String) (kinds : List Kind)
  | divisionByZero (operator : String)
  | zeroToNegativePower
  | zeroToComplexPower
  | negativeShift (operator : String)
  | negativeLength
  | negativeCount
  | surrogate (code : Int)
  | invalidCode (code : Int)
  | notAnInteger (place : String) (kind : Kind)
  | notConvertible (kind target : Kind)
  | notPromotable (kind target : Kind)
  | characterCondition
  | condition (kind : Kind)
  | noIdentity (operator : String)
  | outsideDomain (operator : String)
  | outsideRange (operator : String)
  | boundNotPositive (bound : String)
deriving DecidableEq

namespace DomainError

def message : DomainError → String
  | notDefined operator kinds =>
    operator ++ ": not defined for " ++ " and ".intercalate (kinds.map Kind.name)
  | divisionByZero operator => operator ++ ": division by zero"
  | zeroToNegativePower => "**: zero to a negative power"
  | zeroToComplexPower => "**: zero to a negative or complex power"
  | negativeShift operator => operator ++ ": negative shift count"
  | negativeLength => "rho: negative length"
  | negativeCount => "iota: negative count"
  | surrogate code =>
    "char: surrogate codepoint " ++ Radix.decimalText code ++ " is not a character"
  | invalidCode code => "char: invalid codepoint " ++ Radix.decimalText code
  | notAnInteger place kind => place ++ ": expected an integer, got " ++ kind.name
  | notConvertible kind target => "cannot convert " ++ kind.name ++ " to " ++ target.name
  | notPromotable kind target => "cannot promote " ++ kind.name ++ " to " ++ target.name
  | characterCondition => "character used as a condition"
  | condition kind => "condition must be a scalar, got " ++ kind.name
  | noIdentity operator =>
    "reduce of empty vector with " ++ Text.shown operator ++ " has no identity"
  | outsideDomain operator => operator ++ ": math domain error"
  | outsideRange operator => operator ++ ": math range error"
  | boundNotPositive bound => "?: bound must be positive, got " ++ bound

end DomainError

/-- Lengths or positions that do not fit together. -/
inductive ShapeError where
  | lengthMismatch (operator : String) (left right : Nat)
  | shapeOfRank
  | emptyExtension
  | countOfRank
  | scanResult (operator : String)
  | productResult (operator : String)
  | outerOfVectors (operator : String)
  | indexRange (index : Int) (length : Nat)
  | tooManySubscripts (count : Nat)
  | indexedScalar
  | indexedScalarVariable (name : String)
  | assignmentLength (positions items : Nat)
deriving DecidableEq

namespace ShapeError

def message : ShapeError → String
  | lengthMismatch operator left right =>
    operator ++ ": length mismatch " ++ Radix.natText left ++ " != " ++ Radix.natText right
  | shapeOfRank => "rho: only 1-D shapes are supported"
  | emptyExtension => "rho: cannot extend an empty vector"
  | countOfRank => "iota: argument must be a scalar"
  | scanResult operator => "scan with " ++ Text.shown operator ++ " produced a non-scalar"
  | productResult operator => operator ++ ": product element is not a scalar"
  | outerOfVectors operator => operator ++ ": outer product of two vectors needs rank 2"
  | indexRange index length =>
    "index " ++ Radix.decimalText index ++ " out of range for length " ++ Radix.natText length
  | tooManySubscripts count => "too many subscripts for a vector: " ++ Radix.natText count
  | indexedScalar => "cannot index a scalar"
  | indexedScalarVariable name => "cannot index scalar variable " ++ Text.shown name
  | assignmentLength positions items =>
    "indexed assignment length mismatch " ++ Radix.natText positions ++ " != "
      ++ Radix.natText items

end ShapeError

/-- A name that stands for nothing. -/
inductive UndefinedError where
  | noVariable (name : String)
  | noUnary (operator : String)
  | noBinary (operator : String)
deriving DecidableEq

namespace UndefinedError

def message : UndefinedError → String
  | noVariable name => "undefined variable " ++ Text.shown name
  | noUnary operator => "unary operator " ++ Text.shown operator ++ " not defined"
  | noBinary operator => "binary operator " ++ Text.shown operator ++ " not defined"

end UndefinedError

/-- Failures of calls and assignments. -/
inductive CallError where
  | noFrame
  | indexedNonVariable
  | notAssignable
  | noValue
  | tooDeep
  | tooDeepIn (operator : String)
deriving DecidableEq

namespace CallError

def message : CallError → String
  | noFrame => "no active frame for local variable"
  | indexedNonVariable => "indexed assignment requires a variable"
  | notAssignable => "cannot assign to an expression"
  | noValue => "operator body produced no value"
  | tooDeep => "stack overflow"
  | tooDeepIn operator => "stack overflow calling " ++ Text.shown operator

end CallError

/-! ## § Errors of reading -/

/-- `text`, followed by the line unless that is unknown. -/
def atLine (text : String) (line : Int) : String :=
  if line = 0 then text else text ++ " at line " ++ Radix.decimalText line

/-- A malformed token. -/
inductive LexError.Cause where
  | unrecognized (c : Char)
  | badCharacter (c : Char)
  | badOperator (word : String)
  | notAnOperator (word : String)
  | badNumber (word : String)
  | unterminatedString
  | unterminatedRawString
  | malformedString (text : String)
  | incompleteEscape
  | unknownEscape (c : Char)
  | invalidEscape (c : Char)
deriving DecidableEq

namespace LexError.Cause

def message : LexError.Cause → String
  | unrecognized c => "unrecognized character " ++ Text.shown (String.singleton c)
  | badCharacter c => "bad character " ++ Text.shown (String.singleton c)
  | badOperator word => "bad operator " ++ Text.shown word
  | notAnOperator word => "`" ++ word ++ "` is not an operator"
  | badNumber word => "bad number syntax: " ++ word
  | unterminatedString => "unterminated quoted string"
  | unterminatedRawString => "unterminated raw quoted string"
  | malformedString text => "malformed string " ++ Text.shown text
  | incompleteEscape => "escape sequence is incomplete"
  | unknownEscape c => "unknown escape sequence \\" ++ String.singleton c
  | invalidEscape c => "invalid \\" ++ String.singleton c ++ " escape"

end LexError.Cause

structure LexError where
  cause : LexError.Cause
  line : Int
deriving DecidableEq

namespace LexError

def message (e : LexError) : String := atLine e.cause.message e.line

end LexError

/-- Why the text of a number cannot be read. -/
inductive NumeralError where
  | empty
  | malformed (text : String)
  | unsupportedBase
  | tooManyDigits (count : Nat)
  | bothFractions (text : String)
  | notRational (text : String)
  | zeroDenominator (text : String)
deriving DecidableEq

namespace NumeralError

def message : NumeralError → String
  | empty => "bad number syntax: empty literal"
  | malformed text => "bad number syntax: " ++ text
  | unsupportedBase => "int() base must be >= 2 and <= 36, or 0"
  | tooManyDigits count =>
    "Exceeds the limit (4300 digits) for integer string conversion: value has "
      ++ Radix.natText count
      ++ " digits; use sys.set_int_max_str_digits() to increase the limit"
  | bothFractions text => "bad rational literal " ++ text ++ ": both parts are fractions"
  | notRational text => "bad rational literal " ++ text
  | zeroDenominator text => "bad rational literal " ++ text ++ ": zero denominator"

end NumeralError

/-- A line that is not in the grammar, or a definition that is refused. -/
inductive ParseError.Cause where
  | unexpected (token : String)
  | notUnary (operator : String)
  | notBinary (operator : String)
  | notAssignable
  | numeral (e : NumeralError)
  | invalidName (token : String)
  | nameCount (count : Nat)
  | ownParameter (name : String)
  | duplicateParameter (name : String)
  | emptyBody
  | reservedName (name : String)
  | reservedForOuter
  | variableExists (name : String)
  | tooDeep
deriving DecidableEq

namespace ParseError.Cause

def message : ParseError.Cause → String
  | unexpected token => "unexpected " ++ token
  | notUnary operator => operator ++ " is not a unary operator"
  | notBinary operator => operator ++ " is not a binary operator"
  | notAssignable => "cannot assign to a non-variable"
  | numeral e => e.message
  | invalidName token => "invalid name in op declaration: " ++ token
  | nameCount count => "op declaration needs 2 or 3 names, got " ++ Radix.natText count
  | ownParameter name => "operator " ++ Text.shown name ++ " cannot be its own parameter"
  | duplicateParameter name => "duplicate parameter " ++ Text.shown name
  | emptyBody => "op declaration has an empty body"
  | reservedName name => "cannot use " ++ Text.shown name ++ " as an operator name"
  | reservedForOuter => "'o' is reserved for outer products"
  | variableExists name =>
    "cannot define operator " ++ Text.shown name ++ ": variable with that name exists"
  | tooDeep => "expression too deeply nested"

end ParseError.Cause

structure ParseError where
  cause : ParseError.Cause
  line : Int
  /-- What could have stood in the place of the token. -/
  expected : List String
  /-- The token that the parser stumbled over. -/
  found : Option String
deriving DecidableEq

namespace ParseError

/-- An error message with its line, what was expected and what was found, as far as these are
known. -/
def report (text : String) (line : Int) (expected : List String) (found : Option String) :
    String :=
  atLine text line
    ++ (if expected.isEmpty then "" else "; expected " ++ ", ".intercalate expected)
    ++ (match found with
        | none => ""
        | some token => "; found " ++ token)

def message (e : ParseError) : String := report e.cause.message e.line e.expected e.found

end ParseError

/-! ## § Errors of commands -/

/-- Why a file cannot be opened. -/
inductive FileError where
  | missing
  | isDirectory
  | notDirectory
  | nameTooLong
  | tooManyOpen
  /-- A reason that the host words itself. -/
  | other (reason : String)
deriving DecidableEq

namespace FileError

def message : FileError → String
  | missing => "No such file or directory"
  | isDirectory => "Is a directory"
  | notDirectory => "Not a directory"
  | nameTooLong => "File name too long"
  | tooManyOpen => "Too many open files"
  | other reason => reason

end FileError

inductive CommandError where
  | oneFileName (command : String)
  | file (command path : String) (e : FileError)
deriving DecidableEq

namespace CommandError

def message : CommandError → String
  | oneFileName command => ")" ++ command ++ " needs exactly one file name"
  | file command path e => command ++ " " ++ path ++ ": " ++ e.message

end CommandError

/-! ## § All of them -/

/-- What a session reports on one line before it goes on. -/
inductive Error where
  | domain (e : DomainError)
  | shape (e : ShapeError)
  | undefined (e : UndefinedError)
  | call (e : CallError)
  | lex (e : LexError)
  | parse (e : ParseError)
  | command (e : CommandError)
deriving DecidableEq

namespace Error

def message : Error → String
  | domain e => e.message
  | shape e => e.message
  | undefined e => e.message
  | call e => e.message
  | lex e => e.message
  | parse e => e.message
  | command e => e.message

end Error

/-- What ends a run. -/
inductive Fault where
  /-- A number too large for a double. -/
  | overflow
  /-- An undefined float where an integer is needed. -/
  | undefinedInteger
  /-- An absent value where elements are needed. -/
  | absentElements
  | absentElement
  /-- An outer product without a vector or two scalars. -/
  | absentOperand
  /-- A slot or a frame that does not exist. -/
  | noSlot
  /-- A text that is no float format. -/
  | floatFormat (defect : FloatFormat.Defect)
  /-- A file name that no file system takes. -/
  | fileName
  /-- Files that load each other too deep. -/
  | nestedFiles
  | absentLiteral
  /-- A surrogate in a text that is to be printed. -/
  | surrogate
deriving DecidableEq

namespace Fault

/-- The wording, for those faults that have one. -/
def message? : Fault → Option String
  | undefinedInteger => some "cannot convert float NaN to integer"
  | absentElements => some "absent value has no elements"
  | absentElement => some "absent value cannot be a vector element"
  | floatFormat defect => some defect.message
  | fileName => some "embedded null byte"
  | absentLiteral => some "no literal form for Absent"
  | overflow | absentOperand | noSlot | nestedFiles | surrogate => none

end Fault

/-- Why there is no result. -/
inductive Failure where
  | error (e : Error)
  | fault (f : Fault)
deriving DecidableEq

abbrev Result := Except Failure

/-! ## § Raising -/

def Result.domain {α : Type} (e : DomainError) : Result α := .error (.error (.domain e))

def Result.shape {α : Type} (e : ShapeError) : Result α := .error (.error (.shape e))

def Result.fault {α : Type} (f : Fault) : Result α := .error (.fault f)

end ArrayCalc
