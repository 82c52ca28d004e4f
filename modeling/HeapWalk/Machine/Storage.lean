import HeapWalk.Machine.Basic

/-!
# Storage and scopes of the machine

Every value lives in the heap. A fresh value is a temporary of the current scope; a binding owns its
storage, so a value that already is the storage of a binding is copied before another name is bound
to it. Entering a construct pushes a scope, and leaving it in the ordinary way pops the scope and
frees what it owns; a fault leaves the scope where it is.
-/

set_option autoImplicit false

namespace HeapWalk

namespace Exec

variable {α : Type}

/-! ## Storage -/

/-- What the heap answers to `f`, whose errors are faults. -/
@[inline] def askHeap (f : Heap → Except HeapError α) : Exec α where
  outcome m :=
    match f m.heap with
    | .ok a => .done a m
    | .error e => .fault (.heap e) m
  Passes _ _ := False

@[inline] def updateHeap (f : Heap → Heap) : Exec Unit := update fun m =>
  { m with heap := f m.heap }

/-- The scope in which something is evaluated. -/
def currentScope : Exec ScopeId := view fun m => m.scopes.currentId

def allocate (size : Nat) (o : Ownership) : Exec Pointer := do
  let address ← askHeap fun h => h.findPlace size
  let generation ← view fun m => m.heap.nextGeneration
  let p : Pointer := ⟨address, size, generation⟩
  updateHeap fun h => h.reserve p o
  note (.allocated ⟨p, o⟩)
  pure p

def free (p : Pointer) : Exec Unit := do
  askHeap fun h => h.validate p
  updateHeap fun h => h.reclaim p
  note (.freed p)

def writeValue (p : Pointer) (value : Value) : Exec Unit := do
  let bytes ← askHeap fun h => h.bytesToWrite p value
  updateHeap fun h => h.store p.address bytes

def copy (source target : Pointer) : Exec Unit := do
  let bytes ← askHeap fun h => h.bytesToCopy source target
  updateHeap fun h => h.store target.address bytes

def setOwnership (p : Pointer) (o : Ownership) : Exec Unit := do
  askHeap fun h => h.validate p
  updateHeap fun h => h.reassign p.address o

def noteFreed : List Pointer → Exec Unit
  | [] => pure ()
  | p :: ps => do
    note (.freed p)
    noteFreed ps

/-- Frees whatever has an ownership that satisfies `doomed`, and counts it. -/
def freeWhere (doomed : Ownership → Bool) : Exec Nat := do
  let handles ← view fun m => m.heap.handlesWhere doomed
  updateHeap fun h => h.reclaimAll handles
  noteFreed handles
  pure handles.length

def sweepFrom (floor : ScopeId) : Exec Nat := freeWhere (Ownership.isTemporaryFrom floor)

def ownershipOf (v : Variable) : Exec Ownership := askHeap fun h => h.ownership v.pointer

def readValue (v : Variable) : Exec Value := askHeap fun h => h.readValue v.pointer v.type

/-- The number that an operand of `op` holds. -/
def readNumber (op : UnaryOp) (v : Variable) : Exec Number := do
  match ← readValue v with
  | .number n => pure n
  | value => raise (.operandType (.operand op value.type))

/-- A fresh temporary of the current scope that holds `value`. -/
def allocValue (value : Value) : Exec Variable := do
  let scope ← currentScope
  let p ← allocate value.type.size (.temporary scope)
  writeValue p value
  pure ⟨p, value.type⟩

/-- A copy of a variable in fresh storage. -/
def duplicate (v : Variable) (o : Ownership) : Exec Variable := do
  askHeap fun h => h.validate v.pointer
  let p ← allocate v.pointer.size o
  copy v.pointer p
  pure ⟨p, v.type⟩

/-- Hands a value to `o`: a temporary changes hands, other storage is copied. -/
def rehome (v : Variable) (o : Ownership) : Exec Variable := do
  match ← ownershipOf v with
  | .temporary _ =>
    setOwnership v.pointer o
    pure v
  | .owned _ => duplicate v o

/-- Hands a value to a binding in `scope`. -/
def takeOwnership (v : Variable) (scope : ScopeId) : Exec Variable := rehome v (.owned scope)

/-- Hands a value to `scope` as a temporary. -/
def detachTo (v : Variable) (scope : ScopeId) : Exec Variable := rehome v (.temporary scope)

/-- The variable is live and temporary. -/
def isTemporary (m : Machine) (v : Variable) : Bool :=
  match m.heap.ownership v.pointer with
  | .ok o => o.isTemporary
  | .error _ => false

/-- Frees the temporaries among `vs`; the storage of bindings stays. -/
def discard : List Variable → Exec Unit
  | [] => pure ()
  | v :: vs => do
    if ← view fun m => isTemporary m v then free v.pointer
    discard vs

/-! ## Scopes -/

def enterScope (kind : ScopeKind) (name : String) : Exec ScopeId := do
  let id ← currentNext
  update fun m => { m with scopes := (m.scopes.push kind name).2 }
  note (.entered ⟨id, kind, name⟩)
  pure id
where
  currentNext : Exec ScopeId := view fun m => m.scopes.nextId

/-- Notes the variables of `c` whose storage ends with it. -/
def noteFreeing (c : Context) : Bindings Variable → Exec Unit
  | [] => pure ()
  | (name, v) :: rest => do
    let o ← view fun m => m.heap.ownership v.pointer
    if (o.toOption.map Ownership.scope) = some c.id then note (.freeing name v c.name)
    noteFreeing c rest

/-- Pops the current scope and frees what it owns. -/
def exitScope : Exec Unit := do
  match ← view fun m => m.scopes.current? with
  | none => pure ()
  | some c =>
    noteFreeing c c.locals
    let handles ← view fun m => m.heap.handlesWhere fun o => o.scope == c.id
    update fun m =>
      { m with
        scopes := { m.scopes with contexts := m.scopes.contexts.tail }
        heap := m.heap.reclaimAll handles }
    noteFreed handles
    note (.exited c.frame)

/-- Runs `body` in a fresh scope, which a fault leaves on the stack. -/
@[inline] def withScope (kind : ScopeKind) (name : String) (body : ScopeId → Exec α) : Exec α := do
  let id ← enterScope kind name
  let a ← body id
  exitScope
  pure a

def bindVariable (name : String) (v : Variable) : Exec Unit := update fun m =>
  { m with scopes := m.scopes.bind name v }

def defineFunction (f : FunctionDef) : Exec Unit := do
  note (.defined f.name f.params.length)
  update fun m => { m with scopes := m.scopes.define f }

/-! ## History -/

/-- Records the state, if the machine records. -/
def takeSnapshot : Exec Unit := attempt fun m =>
  if m.config.record then
    match m.history.push (m.snapshot false) with
    | .ok history => .ok { m with history }
    | .error _ => .error (.snapshotLimitExceeded m.history.used m.history.limit)
  else .ok m

/-- Records the state in which a fault arose, if the machine records and the state fits. -/
def recordFault (m : Machine) : Machine :=
  if m.config.record then
    match m.history.push (m.snapshot true) with
    | .ok history => { m with history }
    | .error _ => m
  else m

end Exec

end HeapWalk
