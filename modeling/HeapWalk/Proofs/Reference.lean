import HeapWalk.Machine.Eval

/-!
# Evaluation without a heap

A second interpreter for the same programs, in which a context maps names to values. There is no
heap, nothing is owned and nothing is swept. An assignment, or a print of one, evaluates to the cell
that was assigned, and operands are read when all of them have been evaluated; a new binding, a
parameter and a return value get the value.

The recursion takes fuel. A program `Terminates` with the answer that it comes to from some amount
of fuel on.
-/

set_option autoImplicit false

namespace HeapWalk.Reference

/-- The greatest number of functions that may be running. -/
def callLimit : Nat := 200

@[ext]
structure Context where
  frame : ScopeFrame
  cells : Bindings Value := []
  functions : Bindings FunctionDef := []
  returned : Option Value := none

def Context.isFunction (c : Context) : Bool := c.frame.kind == .function

@[ext]
structure State where
  /-- The contexts, the innermost first. -/
  contexts : List Context
  nextId : ScopeId
  output : Output := #[]
  line : Nat := 0
  signal : Signal := .normal

/-- What an expression evaluates to. -/
inductive Operand where
  | value (v : Value)
  /-- The cell of a name in the context of a scope. -/
  | cell (scope : ScopeId) (name : String)

/-- Why evaluation ends before its end. -/
inductive Stop where
  | fault (e : Fault)
  | outOfFuel

namespace State

/-- Only the global context exists. -/
def initial : State where
  contexts := [{ frame := ⟨.global, .global, Machine.globalName⟩ }]
  nextId := .global + 1

def trace (s : State) : List ScopeFrame := s.contexts.map (·.frame)

/-- The scope of the innermost context. -/
def currentId (s : State) : ScopeId :=
  match s.contexts with
  | [] => .global
  | c :: _ => c.frame.id

/-- The innermost cell of a name: the scope of its context, and what it holds. -/
def find? (s : State) (name : String) : Option (ScopeId × Value) :=
  s.contexts.findSome? fun c => (c.cells.get? name).map fun v => (c.frame.id, v)

def function? (s : State) (name : String) : Option FunctionDef :=
  s.contexts.findSome? fun c => c.functions.get? name

def callDepth (s : State) : Nat := s.contexts.countP Context.isFunction

/-- What the cell of a name in one scope holds. -/
def cell? (s : State) (scope : ScopeId) (name : String) : Option Value :=
  (s.contexts.find? fun c => c.frame.id == scope).bind fun c => c.cells.get? name

/-- Puts a value into the cell of a name in one scope. -/
def overwrite (s : State) (scope : ScopeId) (name : String) (v : Value) : State :=
  { s with
    contexts := s.contexts.map fun c =>
      if c.frame.id = scope then
        { c with cells := c.cells.map fun x => if x.1 = name then (x.1, v) else x }
      else c }

/-- Changes the innermost context. -/
def inInnermost (s : State) (f : Context → Context) : State :=
  { s with contexts := s.contexts.modifyHead f }

def bind (s : State) (name : String) (v : Value) : State :=
  s.inInnermost fun c => { c with cells := c.cells.insert name v }

def push (s : State) (kind : ScopeKind) (name : String) : State :=
  { s with
    contexts := { frame := ⟨s.nextId, kind, name⟩ } :: s.contexts
    nextId := s.nextId + 1 }

/-- `contexts` with a return value stored in the innermost function context. -/
def storeReturn (v : Option Value) : List Context → List Context
  | [] => []
  | c :: rest =>
    if c.isFunction then { c with returned := v } :: rest
    else c :: storeReturn v rest

end State

abbrev Eval := EStateM Stop State

namespace Eval

variable {α : Type}

/-! ## Single steps -/

def fail (e : Fault) : Eval α := throw (.fault e)

def goToLine (line : Nat) : Eval Unit := modify fun s => if 0 < line then { s with line } else s

def setSignal (signal : Signal) : Eval Unit := modify fun s => { s with signal }

/-- What an operand holds. -/
def read : Operand → Eval Value
  | .value v => pure v
  | .cell scope name => do
    match (← get).cell? scope name with
    | some v => pure v
    | none => fail (.undefinedVariable name)

def readAll : List Operand → Eval (List Value)
  | [] => pure []
  | o :: os => do
    let v ← read o
    let vs ← readAll os
    pure (v :: vs)

def readIdentifier (name : String) : Eval Operand := do
  match (← get).find? name with
  | some (_, v) => pure (.value v)
  | none => fail (.undefinedVariable name)

def applyUnary (op : UnaryOp) (o : Operand) : Eval Operand := do
  match ← read o with
  | .number n => pure (.value (.number (op.apply n)))
  | .boolean b => fail (.operandType (.unary op (Value.boolean b).type))

def applyBinary (op : BinaryOp) (l r : Operand) : Eval Operand := do
  let a ← read l
  let b ← read r
  match op.apply a b with
  | some v => pure (.value v)
  | none => fail (.operandType (.binary op a.type b.type))

/-- Overwrites the cell of a visible name, which keeps its type, or makes one in the innermost
context. -/
def assign (target : String) (o : Operand) : Eval Operand := do
  let v ← read o
  match (← get).find? target with
  | some (scope, old) =>
    if old.type = v.type then
      modify fun s => s.overwrite scope target v
      pure (.cell scope target)
    else fail (.operandType (.assignment old.type v.type))
  | none =>
    modify fun s => s.bind target v
    pure (.cell (← get).currentId target)

def printOperand (o : Operand) (line : Nat) : Eval Operand := do
  let v ← read o
  modify fun s => { s with output := s.output.push ⟨v.text, line⟩ }
  pure o

def testCondition (construct : Construct) (o : Operand) : Eval Bool := do
  match ← read o with
  | .boolean b => pure b
  | .number n => fail (.operandType (.condition construct (Value.number n).type))

def findFunction (name : String) : Eval FunctionDef := do
  match (← get).function? name with
  | some f =>
    if (← get).callDepth < callLimit then pure f
    else fail (.callDepthExceeded f.name callLimit)
  | none => fail (.undefinedFunction name)

def bindParameters : List (String × Value) → Eval Unit
  | [] => pure ()
  | (param, v) :: rest => do
    modify fun s => s.bind param v
    bindParameters rest

def define (f : FunctionDef) : Eval Unit := modify fun s =>
  s.inInnermost fun c => { c with functions := c.functions.insert f.name f }

/-- Ends the innermost function, or the program if none is running. -/
def leaveFunction (v : Option Value) : Eval Unit := do
  modify fun s => { s with contexts := State.storeReturn v s.contexts }
  setSignal .ret

/-- What the innermost context returned. -/
def returned : Eval (Option Value) := do
  return (← get).contexts.head?.bind (·.returned)

def within (kind : ScopeKind) (name : String) (body : Eval α) : Eval α := do
  modify fun s => s.push kind name
  let a ← body
  modify fun s => { s with contexts := s.contexts.tail }
  pure a

/-- Whether a loop goes on after its condition; without one it does. -/
def loopCondition : Option (Eval Operand) → Eval Bool
  | none => pure true
  | some condition => do
    let o ← condition
    testCondition .loop o

/-- Whether a loop goes on after a round. -/
def finishRound : Eval Bool := do
  match (← get).signal with
  | .normal => pure true
  | .brk => do
    setSignal .normal
    pure false
  | .ret => pure false

/-! ## Evaluation -/

mutual

def eval : (fuel : Nat) → Expr → Eval Operand
  | 0, _ => throw .outOfFuel
  | fuel + 1, e => do
    goToLine e.line
    match e with
    | .literal v _ => pure (.value v)
    | .identifier name _ => readIdentifier name
    | .unary op operand _ =>
      let o ← eval fuel operand
      applyUnary op o
    | .binary op left right _ =>
      let l ← eval fuel left
      let r ← eval fuel right
      applyBinary op l r
    | .assign target value _ =>
      let o ← eval fuel value
      assign target o
    | .print operand line =>
      let o ← eval fuel operand
      printOperand o line
    | .call name args line =>
      match ← call fuel name args line with
      | some v => pure (.value v)
      | none => fail (.noReturnValue name)
    | .composite shape _ => fail (.invalidComposite shape)

/-- Evaluates one actual for each parameter, from the left. -/
def evalActuals : (fuel : Nat) → (function : String) → (params : List String) → List Expr →
    Eval (List Operand)
  | 0, _, _, _ => throw .outOfFuel
  | _ + 1, _, [], _ => pure []
  | _ + 1, function, param :: _, [] => fail (.missingArgument function param)
  | fuel + 1, function, _ :: params, arg :: args => do
    let o ← eval fuel arg
    let os ← evalActuals fuel function params args
    pure (o :: os)

def call : (fuel : Nat) → String → List Expr → (line : Nat) → Eval (Option Value)
  | 0, _, _, _ => throw .outOfFuel
  | fuel + 1, name, args, line => do
    goToLine line
    let callerLine := (← get).line
    let f ← findFunction name
    let actuals ← evalActuals fuel f.name f.params args
    let values ← readAll actuals
    let result ← within .function f.name do
      bindParameters (f.params.zip values)
      execList fuel f.body
      setSignal .normal
      returned
    modify fun s => { s with line := callerLine }
    pure result

def exec : (fuel : Nat) → Stmt → Eval Unit
  | 0, _ => throw .outOfFuel
  | fuel + 1, s => do
    goToLine s.line
    match s with
    | .expr (.call name args line) =>
      let _ ← call fuel name args line
    | .expr e =>
      let _ ← eval fuel e
    | .block body _ => within .block "block" (execList fuel body)
    | .cond condition thenBranch elseBranch _ =>
      let o ← eval fuel condition
      if ← testCondition .cond o then within .block "if" (execList fuel thenBranch)
      else match elseBranch with
        | some branch => within .block "else" (execList fuel branch)
        | none => pure ()
    | .loop condition body _ => execLoop fuel condition body
    | .function name params body line => define ⟨name, params, body, line⟩
    | .ret none _ => leaveFunction none
    | .ret (some e) _ =>
      let o ← eval fuel e
      let v ← read o
      leaveFunction (some v)
    | .brk _ => setSignal .brk

/-- Executes statements up to the first that leaves a signal. -/
def execList : (fuel : Nat) → List Stmt → Eval Unit
  | 0, _ => throw .outOfFuel
  | _ + 1, [] => pure ()
  | fuel + 1, s :: rest => do
    exec fuel s
    if (← get).signal = .normal then execList fuel rest

def execLoop : (fuel : Nat) → Option Expr → List Stmt → Eval Unit
  | 0, _, _ => throw .outOfFuel
  | fuel + 1, condition, body => do
    let proceed ← loopCondition (condition.map fun c => eval fuel c)
    if proceed then
      let again ← within .loop "loop" do
        execList fuel body
        finishRound
      if again then execLoop fuel condition body

end

/-- Runs a program from start to end. -/
def run (fuel : Nat) (program : Program) : Eval Unit := do
  execList fuel program
  setSignal .normal

theorem bind_apply {β : Type} (x : Eval α) (f : α → Eval β) (s : State) :
    (x >>= f) s =
      match x s with
      | .ok a s => f a s
      | .error e s => .error e s := by
  show EStateM.bind x f s = _
  unfold EStateM.bind
  cases x s <;> rfl

theorem read_cell {s : State} {scope : ScopeId} {name : String} {v : Value}
    (h : s.cell? scope name = some v) : read (.cell scope name) s = .ok v s := by
  have hget : (get : Eval State) s = .ok s s := rfl
  unfold read
  dsimp only
  rw [bind_apply, hget]
  dsimp only
  rw [h]
  rfl

end Eval

/-- With enough fuel the program always comes to `answer`. -/
def Terminates (program : Program) (answer : EStateM.Result Stop State Unit) : Prop :=
  ∃ enough, ∀ fuel, enough ≤ fuel → Eval.run fuel program .initial = answer

end HeapWalk.Reference
