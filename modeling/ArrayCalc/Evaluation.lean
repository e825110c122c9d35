import ArrayCalc.Evaluation.Derived

/-!
# Evaluation

The right operand of an operator is evaluated before the left one, and the value of an assignment
before its subscript.  The vector that an indexed assignment changes is the one from before the
subscript was evaluated.

The body of an operator runs statement by statement.  A conditional that holds ends it at once, and
otherwise the last value that a statement had is the result.

Trees and calls go to a limited depth.  What lies within a tree takes one level, and more than one
where some steps come between; these further levels are its toll.  `node` and `enter` are given the
evaluator for what lies within at any toll, so that the levels are counted in one place.

A call that comes to the last level may be given up while its frame is opened.  Then the size of
the frame stays on record.
-/

namespace ArrayCalc.Evaluation

/-- The way an operator of the user is called with its operands. -/
abbrev Calling := UserOperator → List Value → Evaluation Value

/-- The way a tree is evaluated. -/
abbrev Evaluating := Expr → Evaluation Value

variable [Machine]

/-! ## § Operators -/

/-- Applies the binary operator that has exactly this name. -/
def applySingle (call : Nat → Calling) (toll : Nat) : Applying := fun l operator r => do
  match (← get).userOperator? .binary operator, BinaryPrimitive.ofName? operator with
  | some f, _ => call (toll + 2) f [l, r]
  | none, some primitive => ofResult (primitive.apply l r)
  | none, none => fail (.undefined (.noBinary operator))

/-- Applies the binary operator that a word means. -/
def applyBinary (call : Nat → Calling) (toll : Nat) : Applying := fun l word r =>
  applyProduct (applySingle call) toll (OperatorWord.operators word) l r

/-- Applies a product of at least two operators. -/
def applyProductWord (call : Nat → Calling) (toll : Nat) : Applying := fun l word r =>
  if OperatorWord.isProduct word then applyBinary call toll l word r
  else fail (.undefined (.noBinary word))

/-- Applies a unary primitive.  What it has drawn from the dice is used up even if it fails. -/
def applyPrimitive (primitive : UnaryPrimitive) (v : Value) : Evaluation Value := do
  let w ← get
  let (result, dice) := primitive.apply w.settings.origin w.dice v
  set { w with dice := dice }
  ofResult result

/-- Applies the unary operator that a word means. -/
def applyUnary (call : Nat → Calling) (word : String) (v : Value) : Evaluation Value := do
  match OperatorWord.splitMark? word with
  | some (operator, '/') => reduce (applyBinary call 3) operator v
  | some (operator, _) => scan (applyBinary call 3) operator v
  | none =>
    match (← get).userOperator? .unary word, UnaryPrimitive.ofName? word with
    | some f, _ => call 2 f [v]
    | none, some primitive => applyPrimitive primitive v
    | none, none => fail (.undefined (.noUnary word))

/-! ## § Trees -/

/-- The value of the one subscript that is not left out, if there is any. -/
def subscript (eval : Evaluating) (subscripts : List Expr) : Evaluation (Option Value) := do
  match subscripts.filter (· != .empty) with
  | [] => return none
  | [e] => return some (← eval e)
  | _ => failShape (.tooManySubscripts subscripts.length)

/-- Assigns to the selected elements of a variable. -/
def assignElements (eval : Evaluating) (base : Expr) (subscripts : List Expr) (v : Value) :
    Evaluation Unit := do
  match Place.ofExpr? base with
  | none => failCall .indexedNonVariable
  | some place =>
    match ← place.read with
    | .vector items =>
      let chosen ← subscript eval subscripts
      let items ← ofResult (replace (← get).settings.origin items chosen v)
      place.write (.vector items)
    | _ => failShape (.indexedScalarVariable place.name)

def assign (eval : Evaluating) (target : Expr) (v : Value) : Evaluation Unit := do
  match target with
  | .sessionVar name => Place.write v (.ofSession name)
  | .slotVar name slot => Place.write v (.ofFrame name slot)
  | .index base subscripts => assignElements eval base subscripts v
  | _ => failCall .notAssignable

/-- The items that an operand adds to a strand. -/
def strandItems (eval : Evaluating) (e : Expr) : Evaluation (List Scalar) := do
  match ← eval e with
  | .scalar s => return [s]
  | .vector items => return items
  | .absent => throw (.fault .absentElement)

/-- Whether a condition holds. -/
def holds (eval : Evaluating) (condition : Expr) : Evaluation Bool := do
  ofResult (← eval condition).truth

/-- Evaluates a tree, given the ways to evaluate its parts and to call operators at some toll. -/
def node (eval : Nat → Evaluating) (call : Nat → Calling) (e : Expr) : Evaluation Value := do
  match e with
  | .constant s => return .scalar s
  | .string text => return Value.ofText text
  | .sessionVar name => (Place.ofSession name).read
  | .slotVar name slot => (Place.ofFrame name slot).read
  | .unary operator right => applyUnary call operator (← eval 0 right)
  | .binary operator left right =>
    let r ← eval 0 right
    let l ← eval 0 left
    applyBinary call 0 l operator r
  | .assign target value =>
    let v ← eval 0 value
    assign (eval 3) target v
    return v
  | .conditional condition result =>
    if ← holds (eval 0) condition then eval 0 result else return .absent
  | .index base subscripts =>
    let v ← eval 0 base
    let chosen ← subscript (eval 1) subscripts
    ofResult (select (← get).settings.origin v chosen)
  | .strand items => return .vector (← items.mapM (strandItems (eval 2))).flatten
  | .empty => return .absent

/-! ## § Calls -/

/-- Runs the statements of a body; `result` is the last value so far. -/
def runBody (eval : Evaluating) : List Expr → Value → Evaluation Value
  | [], .absent => failCall .noValue
  | [], result => return result
  | .empty :: rest, result => runBody eval rest result
  | .conditional condition value :: rest, result => do
    if ← holds eval condition then eval value else runBody eval rest result
  | e :: rest, _ => do runBody eval rest (← eval e)

/-- Refuses a call while as many calls are active as the settings allow. -/
def checkDepth (f : UserOperator) : Evaluation Unit := do
  let w ← get
  if w.settings.maxStack ≤ w.stack.depth then failCall (.tooDeepIn f.name)

/-- Opens a frame for a call. -/
def pushFrame (f : UserOperator) (operands : List Value) : Evaluation Unit := do
  checkDepth f
  modify fun w => { w with stack := w.stack.enter operands f.locals.length }

/-- Gives up a call while its frame is opened. -/
def tear (f : UserOperator) : Evaluation Value := do
  checkDepth f
  if Machine.tearsFrames then
    modify fun w => { w with stack := w.stack.reserve f.locals.length }
  failCall .tooDeep

/-- Closes the innermost frame. -/
def leave : Evaluation Unit :=
  modify fun w => { w with stack := w.stack.pop?.getD w.stack }

/-- Calls an operator in a frame of its own, which is closed again whatever happens. -/
def enter (eval : Evaluating) (f : UserOperator) (operands : List Value) : Evaluation Value := do
  pushFrame f operands
  try
    let v ← runBody eval f.body .absent
    leave
    return v
  catch failure =>
    leave
    throw failure

/-! ## § Depth -/

mutual

/-- Evaluates a tree that is reached at some toll, as deep as `depth`. -/
def evaluateWithin : (depth toll : Nat) → Evaluating
  | 0, _, _ => failCall .tooDeep
  | depth + 1, toll + 1, e => evaluateWithin depth toll e
  | depth + 1, 0, e =>
    node (fun toll part => evaluateWithin depth toll part)
      (fun toll f operands => callWithin depth toll f operands) e

/-- Calls an operator at some toll; the last level is not enough for its body. -/
def callWithin : (depth toll : Nat) → Calling
  | 0, _, _, _ => failCall .tooDeep
  | depth + 1, toll + 1, f, operands => callWithin depth toll f operands
  | depth + 1, 0, f, operands =>
    if depth = 0 then tear f else enter (fun part => evaluateWithin depth 0 part) f operands

end

def evaluate (e : Expr) : Evaluation Value := evaluateWithin Machine.calls 0 e

/-- Calls an operator from the session. -/
def callOperator (toll : Nat) : Calling := callWithin Machine.calls toll

/-- Evaluates the statements of a line; the result is what there is to print. -/
def evaluateLine : List Expr → Evaluation (List Value)
  | [] => return []
  | e :: rest => do
    let v ← evaluate e
    let others ← evaluateLine rest
    return if e.isSilent || v == .absent then others else v :: others

end ArrayCalc.Evaluation
