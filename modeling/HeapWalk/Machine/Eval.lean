import HeapWalk.Machine.Storage

/-!
# Evaluation

Expressions and statements, run on the machine. The value of an expression is a variable: a fresh
temporary of the current scope, or the storage of a binding if the expression is an assignment or
prints one. Operands are evaluated from the left, both operands of `&&` and `||` too.

A `break` ends the innermost loop around it and a `return` the innermost function; both leave a
signal, at which every list of statements on the way stops. Calls and loops make the recursion
unbounded, so evaluation takes fuel: one unit for each level of recursion and each round of a loop.
-/

set_option autoImplicit false

namespace HeapWalk

/-- The greatest number of functions that may be running. -/
def maxCallDepth : Nat := 200

namespace Exec

/-! ## Single steps -/

/-- A copy of the variable that `name` is bound to. -/
def readIdentifier (name : String) : Exec Variable := do
  match ← view fun m => m.scopes.lookupVariable name with
  | none => raise (.undefinedVariable name)
  | some v =>
    let scope ← currentScope
    duplicate v (.temporary scope)

def applyUnary (op : UnaryOp) (v : Variable) : Exec Variable := do
  if v.type = .number then
    let n ← readNumber op v
    allocValue (.number (op.apply n))
  else
    discard [v]
    raise (.operandType (.unary op v.type))

def applyBinary (op : BinaryOp) (l r : Variable) : Exec Variable := do
  let a ← readValue l
  let b ← readValue r
  match op.apply a b with
  | some value => allocValue value
  | none =>
    discard [l, r]
    raise (.operandType (.binary op l.type r.type))

/-- Overwrites the storage of a visible name, which keeps its type, or binds a new name in the
current scope. -/
def assign (target : String) (value : Variable) : Exec Variable := do
  match ← view fun m => m.scopes.lookupVariable target with
  | some bound =>
    if bound.type = value.type then
      copy value.pointer bound.pointer
      note (.overwritten target bound.pointer)
      pure bound
    else
      discard [value]
      raise (.operandType (.assignment bound.type value.type))
  | none =>
    let scope ← currentScope
    let bound ← takeOwnership value scope
    bindVariable target bound
    note (.bound target bound.pointer scope)
    pure bound

def printVariable (v : Variable) (line : Nat) : Exec Variable := do
  let value ← readValue v
  echo value.text
  update fun m => { m with output := m.output.push ⟨value.text, line⟩ }
  pure v

/-- The truth of a condition, which has to be a boolean. -/
def testCondition (construct : Construct) (v : Variable) : Exec Bool := do
  match ← readValue v with
  | .boolean b => pure b
  | .number _ =>
    discard [v]
    raise (.operandType (.condition construct v.type))

/-- The function of a name, if another call is admitted. -/
def findFunction (name : String) : Exec FunctionDef := do
  match ← view fun m => m.scopes.lookupFunction name with
  | none => raise (.undefinedFunction name)
  | some f =>
    if (← view fun m => m.scopes.callDepth) < maxCallDepth then pure f
    else raise (.callDepthExceeded f.name maxCallDepth)

/-- Binds the parameters of a function in its scope. -/
def bindParameters (scope : ScopeId) : List (String × Variable) → Exec Unit
  | [] => pure ()
  | (param, actual) :: rest => do
    let bound ← takeOwnership actual scope
    bindVariable param bound
    bindParameters scope rest

/-- Hands the value of a `return`, if it has one, to `caller` as a temporary. -/
def handBack (caller : ScopeId) : Option Variable → Exec (Option Variable)
  | none => pure none
  | some v => do
    let returned ← detachTo v caller
    pure (some returned)

/-- Stores what a `return` hands back in the context of the innermost function. -/
def storeReturned (value : Option Variable) : Exec Unit := do
  match ← view fun m => m.scopes.callerId? with
  | some caller =>
    let returned ← handBack caller value
    update fun m => { m with scopes := m.scopes.setReturnValue returned }
  | none => note .returnedAtTop

/-- Leaves a `return`: the value goes to the caller's scope as a temporary. A `return` outside any
function ends the program. -/
def leaveFunction (value : Option Variable) : Exec Unit := do
  storeReturned value
  setSignal .ret

/-- Sweeps what the statement before left, if the machine sweeps. -/
def sweepStatement : Exec Unit := do
  if ← view fun m => m.config.sweep then
    let floor ← view fun m => m.scopes.sweepFloor
    let count ← sweepFrom floor
    if 0 < count then note (.swept count floor)

/-- What follows a statement of a list: temporaries are swept, and the state is recorded. -/
def finishStatement : Exec Unit := do
  sweepStatement
  takeSnapshot

/-- Sweeps what the condition of a loop left in the scope around the loop. -/
def sweepCondition : Exec Unit := do
  if ← view fun m => m.config.sweep then
    let scope ← currentScope
    let _ ← sweepFrom scope

/-- Whether a loop goes on; without a condition it does. -/
def loopCondition : (condition : Option (Exec Variable)) → Exec Bool
  | none => pure true
  | some condition => do
    let v ← condition
    let proceed ← testCondition .loop v
    sweepCondition
    pure proceed

/-- Ends a round of a loop; the loop goes on unless a signal was left, and a `break` is spent. -/
def finishRound : Exec Bool := do
  match ← view fun m => m.signal with
  | .normal => pure true
  | .brk =>
    setSignal .normal
    pure false
  | .ret => pure false

/-! ## Evaluation -/

mutual

def eval : (fuel : Nat) → Expr → Exec Variable
  | 0, _ => outOfFuel
  | fuel + 1, e => do
    goToLine e.line
    match e with
    | .literal value _ => allocValue value
    | .identifier name _ => readIdentifier name
    | .unary op operand _ =>
      let v ← eval fuel operand
      applyUnary op v
    | .binary op left right _ =>
      let l ← eval fuel left
      let r ← eval fuel right
      applyBinary op l r
    | .assign target value _ =>
      let v ← eval fuel value
      assign target v
    | .print operand line =>
      let v ← eval fuel operand
      printVariable v line
    | .call name args line =>
      match ← call fuel name args line with
      | some v => pure v
      | none => raise (.noReturnValue name)
    | .composite shape _ => raise (.invalidComposite shape)

/-- Evaluates the actuals of a call in the caller's scope, one for each parameter; actuals in excess
are not evaluated. -/
def evalActuals : (fuel : Nat) → (function : String) → (params : List String) → List Expr →
    Exec (List Variable)
  | 0, _, _, _ => outOfFuel
  | _ + 1, _, [], _ => pure []
  | _ + 1, function, param :: _, [] => raise (.missingArgument function param)
  | fuel + 1, function, _ :: params, arg :: args => do
    let v ← eval fuel arg
    let vs ← evalActuals fuel function params args
    pure (v :: vs)

/-- Calls a function; the value is what it returned, if anything. -/
def call : (fuel : Nat) → String → List Expr → (line : Nat) → Exec (Option Variable)
  | 0, _, _, _ => outOfFuel
  | fuel + 1, name, args, line => do
    goToLine line
    let callerLine ← view fun m => m.line
    let f ← findFunction name
    let actuals ← evalActuals fuel f.name f.params args
    note (.called f.name actuals.length)
    let result ← withScope .function f.name fun scope => do
      bindParameters scope (f.params.zip actuals)
      execList fuel f.body
      setSignal .normal
      view fun m => m.scopes.current?.bind (·.returnValue)
    update fun m => { m with line := callerLine }
    pure result

def exec : (fuel : Nat) → Stmt → Exec Unit
  | 0, _ => outOfFuel
  | fuel + 1, s => do
    goToLine s.line
    match s with
    | .expr (.call name args line) =>
      let _ ← call fuel name args line
    | .expr e =>
      let _ ← eval fuel e
    | .block body _ => withScope .block "block" fun _ => execList fuel body
    | .cond condition thenBranch elseBranch _ =>
      let v ← eval fuel condition
      if ← testCondition .cond v then
        withScope .block "if" fun _ => execList fuel thenBranch
      else match elseBranch with
        | some branch => withScope .block "else" fun _ => execList fuel branch
        | none => pure ()
    | .loop condition body _ => execLoop fuel condition body 0
    | .function name params body line => defineFunction ⟨name, params, body, line⟩
    | .ret none _ => leaveFunction none
    | .ret (some e) _ =>
      let v ← eval fuel e
      leaveFunction (some v)
    | .brk _ => setSignal .brk

/-- Executes statements in the current scope, up to the first that leaves a signal. -/
def execList : (fuel : Nat) → List Stmt → Exec Unit
  | 0, _ => outOfFuel
  | _ + 1, [] => pure ()
  | fuel + 1, s :: rest => do
    exec fuel s
    if (← view fun m => m.signal) = .normal then
      finishStatement
      execList fuel rest

/-- Executes a loop of which `rounds` rounds are over. -/
def execLoop : (fuel : Nat) → Option Expr → List Stmt → (rounds : Nat) → Exec Unit
  | 0, _, _, _ => outOfFuel
  | fuel + 1, condition, body, rounds => do
    let proceed ← loopCondition (condition.map fun c => eval fuel c)
    if proceed then
      let again ← withScope .loop "loop" fun _ => do
        execList fuel body
        finishRound
      if again then execLoop fuel condition body (rounds + 1)
      else note (.loopFinished (rounds + 1))
    else note (.loopFinished rounds)

end

end Exec

end HeapWalk
