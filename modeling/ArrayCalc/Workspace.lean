import ArrayCalc.Bindings
import ArrayCalc.CallStack
import ArrayCalc.Primitive.Table
import ArrayCalc.Settings
import ArrayCalc.Token.Scanner
import ArrayCalc.UserOperator

/-!
# Workspaces

A workspace holds everything a session changes: its variables, the operators defined in it, the
frames of active calls, the dice, and the names declared by the definition that is being read.

A definition is made in two steps.  `beginDefinition` puts an operator without a body in place, so
that the body may call it; `define` puts the finished operator in its place, and
`abandonDefinition` the one that was there before.
-/

namespace ArrayCalc

/-- A user-defined operator by name and arity. -/
structure Signature where
  name : String
  arity : Arity
deriving DecidableEq, Repr

structure Workspace where
  settings : Settings
  globals : Bindings Value
  unary : Bindings UserOperator
  binary : Bindings UserOperator
  /-- All definitions, the latest last. -/
  definitions : List Signature
  /-- The names of the slots of the definition that is being read. -/
  declared : List String
  stack : CallStack
  dice : Dice
deriving DecidableEq

namespace Workspace

/-- A new workspace knows two numbers by name. -/
def ofSettings [Machine] (settings : Settings) : Workspace where
  settings := settings
  globals := (Bindings.empty.insert "e" (.scalar (.float Elementary.euler))).insert "pi"
    (.scalar (.float Elementary.pi))
  unary := .empty
  binary := .empty
  definitions := []
  declared := []
  stack := .empty
  dice := Machine.generator.ofSeed settings.seed

def table (w : Workspace) : Arity → Bindings UserOperator
  | .unary => w.unary
  | .binary => w.binary

def withTable (w : Workspace) (arity : Arity) (table : Bindings UserOperator) : Workspace :=
  match arity with
  | .unary => { w with unary := table }
  | .binary => { w with binary := table }

def userOperator? (w : Workspace) (arity : Arity) (name : String) : Option UserOperator :=
  (w.table arity).get? name

/-! ## § Variables -/

def global? (w : Workspace) (name : String) : Option Value := w.globals.get? name

def setGlobal (w : Workspace) (name : String) (v : Value) : Workspace :=
  { w with globals := w.globals.insert name v }

/-! ## § Declarations -/

/-- The slot of a declared name, counted from one. -/
def slotOf? (w : Workspace) (name : String) : Option Nat :=
  (w.declared.findIdx? (· == name)).map (· + 1)

def isDeclared (w : Workspace) (name : String) : Bool := w.declared.contains name

/-- Declares a name, unless it is declared already. -/
def declare (w : Workspace) (name : String) : Workspace :=
  if w.isDeclared name then w else { w with declared := w.declared ++ [name] }

def forgetDeclarations (w : Workspace) : Workspace := { w with declared := [] }

/-! ## § Operators by name -/

/-- A declared name is a variable, even if operators have the same name. -/
def definedUnary (w : Workspace) (name : String) : Bool :=
  !w.isDeclared name && ((UnaryPrimitive.ofName? name).isSome || w.unary.contains name)

def definedBinary (w : Workspace) (name : String) : Bool :=
  !w.isDeclared name && ((BinaryPrimitive.ofName? name).isSome || w.binary.contains name)

def isOperatorName (w : Workspace) (name : String) : Bool :=
  w.definedUnary name || w.definedBinary name

def vocabulary (w : Workspace) : Vocabulary where
  inputBase := w.settings.inputBase
  isUnary := w.definedUnary
  isBinary := w.definedBinary

/-- The primitive that a name stands for as long as the user has not redefined it. -/
def primitive? (w : Workspace) (name : String) : Option BinaryPrimitive :=
  if w.binary.contains name then none else BinaryPrimitive.ofName? name

/-! ## § Definitions -/

/-- Names that never become operators. -/
def reservedNames : List String := ["pi", "e", "_"]

/-- Makes room for an operator among the variables.  A variable that holds the integer zero gives
its name away; any other keeps it. -/
def releaseName (w : Workspace) (name : String) : Except ParseError.Cause Workspace :=
  match w.global? name with
  | none => .ok w
  | some (.scalar (.int n)) =>
    if n = 0 then .ok { w with globals := w.globals.erase name }
    else .error (.variableExists name)
  | some _ => .error (.variableExists name)

/-- Makes sure that an operator can have the name. -/
def claimName (w : Workspace) (name : String) (arity : Arity) :
    Except ParseError.Cause Workspace :=
  if reservedNames.contains name then .error (.reservedName name)
  else if name = "o" ∧ arity = .binary then .error .reservedForOuter
  else w.releaseName name

/-- An operator that has its parameters but no body yet. -/
def placeholder (name : String) (left : Option String) (right : String) : UserOperator where
  name := name
  left := left
  right := right
  body := []
  locals := left.toList ++ [right]
  globals := []

/-- Puts a placeholder where the definition will stand. -/
def beginDefinition (w : Workspace) (name : String) (left : Option String) (right : String) :
    Except ParseError.Cause Workspace := do
  let f := placeholder name left right
  let w ← w.claimName name f.arity
  return w.withTable f.arity ((w.table f.arity).insert name f)

/-- Puts back what stood in the place of a definition before it was begun. -/
def abandonDefinition (w : Workspace) (name : String) (arity : Arity)
    (previous : Option UserOperator) : Workspace :=
  w.withTable arity ((w.table arity).restore name previous)

/-- Stores a finished operator and lists it as the latest definition. -/
def define (w : Workspace) (f : UserOperator) : Except ParseError.Cause Workspace := do
  let w ← w.claimName f.name f.arity
  let w := w.withTable f.arity ((w.table f.arity).insert f.name f)
  let signature : Signature := ⟨f.name, f.arity⟩
  return { w with definitions := w.definitions.filter (· != signature) ++ [signature] }

/-- The operators in the order of their definitions. -/
def definedOperators (w : Workspace) : List UserOperator :=
  w.definitions.filterMap fun s => w.userOperator? s.arity s.name

/-- All definitions as source, one to a line. -/
def definitionsText (w : Workspace) : String :=
  "\n".intercalate (w.definedOperators.map UserOperator.definitionText)

end Workspace

end ArrayCalc
