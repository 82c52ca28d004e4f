import HeapWalk.Proofs.Operands

/-!
# What a type fault leaves on the heap

An operator whose operands have the wrong types discards them before it stops. It does not discard
what was evaluated on the way to it: the operands of its operands, and the left operands of the
operators in whose right operand it stands. `Expr.strays` counts these from the types of the visible
names, and a type fault leaves that many temporaries more than there were. So it leaves the heap as
it found it only if there are none.

Evaluation is followed with two descriptions. An expression of operators that has a value left one
temporary for each of its nodes (`Exec.Finished`), and one that met a type fault left its strays
(`Exec.Mistyped`).
-/

set_option autoImplicit false

namespace HeapWalk

open Store

/-! ## Types and temporaries of operator expressions -/

/-- The type of `a op b` for operands of these types. -/
def BinaryOp.type? (op : BinaryOp) (a b : ValueType) : Option ValueType :=
  if op ∈ [.add, .sub, .mul, .div] then
    if a = .number ∧ b = .number then some .number else none
  else if op ∈ [.and, .or] then
    if a = .boolean ∧ b = .boolean then some .boolean else none
  else
    if a = .number ∧ b = .number then some .boolean else none

theorem BinaryOp.type_apply (op : BinaryOp) (a b : Value) :
    (op.apply a b).map Value.type = op.type? a.type b.type := by
  cases a <;> cases b <;> cases op <;> rfl

/-- The types of the visible names. -/
def ScopeStack.typeOf? (s : ScopeStack) (name : String) : Option ValueType :=
  (s.lookupVariable name).map (·.type)

namespace Expr

variable (types : String → Option ValueType)

/-- The expression is built from literals and names with unary and binary operators. -/
def isPlain : Expr → Bool
  | literal _ _ | identifier _ _ => true
  | unary _ operand _ => operand.isPlain
  | binary _ left right _ => left.isPlain && right.isPlain
  | assign _ _ _ | print _ _ | call _ _ _ | composite _ _ => false

/-- The type of a plain expression, if every operator in it has operands that it takes. -/
def type? : Expr → Option ValueType
  | literal value _ => some value.type
  | identifier name _ => types name
  | unary _ operand _ => operand.type?.filter (· = .number)
  | binary op left right _ => left.type?.bind fun a => right.type?.bind fun b => op.type? a b
  | assign _ _ _ | print _ _ | call _ _ _ | composite _ _ => none

/-- How many temporaries a plain expression leaves when it has a value, its own among them. -/
def temporaries : Expr → Nat
  | unary _ operand _ => operand.temporaries + 1
  | binary _ left right _ => left.temporaries + right.temporaries + 1
  | _ => 1

/-- How many temporaries a plain expression leaves when it meets a type fault. The operator that
fails discards the values of its operands and nothing else. -/
def strays : Expr → Nat
  | unary _ operand _ =>
    if (operand.type? types).isNone then operand.strays else operand.temporaries - 1
  | binary _ left right _ =>
    if (left.type? types).isNone then left.strays
    else if (right.type? types).isNone then left.temporaries + right.strays
    else (left.temporaries - 1) + (right.temporaries - 1)
  | _ => 0

end Expr

/-! ## Heaps with more ranges -/

namespace Heap

/-- `h'` is `h` with the new ranges `ps`, which belong to `o`. -/
structure Gained (h : Heap) (o : Ownership) (ps : List Pointer) (h' : Heap) : Prop where
  capacity : h'.capacity = h.capacity
  distinct : ps.Nodup
  new : ∀ p ∈ ps, h.block? p = none
  owner : ∀ p ∈ ps, ∃ bytes, h'.block? p = some ⟨o, bytes⟩
  others : ∀ p, p ∉ ps → h'.block? p = h.block? p

namespace Gained

variable {h h' h₁ : Heap} {o : Ownership} {p : Pointer} {ps qs : List Pointer} {σ τ : Store}

theorem refl (h : Heap) (o : Ownership) : h.Gained o [] h where
  capacity := rfl
  distinct := List.nodup_nil
  new _ hp := by cases hp
  owner _ hp := by cases hp
  others _ _ := rfl

theorem trans (hg : h.Gained o ps h₁) (hg₁ : h₁.Gained o qs h') : h.Gained o (qs ++ ps) h' := by
  have hapart : ∀ p ∈ qs, p ∉ ps := by
    intro p hq hp
    obtain ⟨bytes, hb⟩ := hg.owner p hp
    simp [hg₁.new p hq] at hb
  constructor
  · exact hg₁.capacity.trans hg.capacity
  · exact List.nodup_append.2 ⟨hg₁.distinct, hg.distinct, fun p hq q hp he =>
      hapart p hq (he ▸ hp)⟩
  · intro p hp
    obtain hp | hp := List.mem_append.1 hp
    · rw [← hg.others p (hapart p hp), hg₁.new p hp]
    · exact hg.new p hp
  · intro p hp
    by_cases hq : p ∈ qs
    · exact hg₁.owner p hq
    · rw [hg₁.others p hq]
      exact hg.owner p ((List.mem_append.1 hp).resolve_left hq)
  · intro p hp
    simp only [List.mem_append, not_or] at hp
    rw [hg₁.others p hp.1, hg.others p hp.2]

theorem of_puts {bytes : List UInt8} (hputs : σ.Puts τ p (some ⟨o, bytes⟩))
    (hnone : σ.block? p = none) : σ.heap.Gained o [p] τ.heap where
  capacity := hputs.capacity
  distinct := by simp
  new _ hq := by rw [List.mem_singleton.1 hq]; exact hnone
  owner _ hq := by rw [List.mem_singleton.1 hq]; exact ⟨bytes, hputs.self⟩
  others _ hq := hputs.other (by simpa using hq)

/-- One of the new ranges goes again. -/
theorem erase (hg : h.Gained o ps σ.heap) (hp : p ∈ ps) (hputs : σ.Puts τ p none) :
    h.Gained o (ps.erase p) τ.heap := by
  constructor
  · exact hputs.capacity.trans hg.capacity
  · exact hg.distinct.erase p
  · exact fun q hq => hg.new q (List.mem_of_mem_erase hq)
  · intro q hq
    obtain ⟨hne, hq⟩ := hg.distinct.mem_erase_iff.1 hq
    obtain ⟨bytes, hb⟩ := hg.owner q hq
    exact ⟨bytes, (hputs.other hne).trans hb⟩
  · intro q hq
    by_cases hqp : q = p
    · rw [hqp, hg.new p hp]
      exact hputs.self
    · have hqs : q ∉ ps := fun hmem => hq (hg.distinct.mem_erase_iff.2 ⟨hqp, hmem⟩)
      exact (hputs.other hqp).trans (hg.others q hqs)

section WellFormed

variable (hw : h.WellFormed) (hw' : h'.WellFormed) (hg : h.Gained o ps h')
include hw hg

theorem block?_eq {a : Allocation} (ha : a ∈ h.registry) :
    h'.block? a.pointer = some ⟨a.ownership, h.bytesAt a.pointer⟩ := by
  have hb : h.block? a.pointer = some ⟨a.ownership, h.bytesAt a.pointer⟩ :=
    hw.block?_eq_some.2 ⟨ha, rfl⟩
  rw [hg.others, hb]
  intro hp
  simp [hg.new _ hp] at hb

include hw'

theorem bytesAt_eq {a : Allocation} (ha : a ∈ h.registry) :
    h'.bytesAt a.pointer = h.bytesAt a.pointer :=
  (hw'.block?_eq_some.1 (hg.block?_eq hw ha)).2.symm

theorem mem_registry {a : Allocation} :
    a ∈ h'.registry ↔ (a.pointer ∈ ps ∧ a.ownership = o) ∨ a ∈ h.registry := by
  constructor
  · intro ha
    have hb : h'.block? a.pointer = some ⟨a.ownership, h'.bytesAt a.pointer⟩ :=
      hw'.block?_eq_some.2 ⟨ha, rfl⟩
    by_cases hp : a.pointer ∈ ps
    · obtain ⟨bytes, ho⟩ := hg.owner _ hp
      rw [hb, Option.some.injEq, Block.mk.injEq] at ho
      exact .inl ⟨hp, ho.1⟩
    · rw [hg.others _ hp] at hb
      exact .inr (hw.block?_eq_some.1 hb).1
  · intro ha
    obtain ⟨hp, rfl⟩ | ha := ha
    · obtain ⟨bytes, hb⟩ := hg.owner _ hp
      exact (hw'.block?_eq_some.1 hb).1
    · exact (hw'.block?_eq_some.1 (hg.block?_eq hw ha)).1

theorem allocations_perm : h'.allocations.Perm (ps.map (⟨·, o⟩) ++ h.allocations) := by
  have hnew : (ps.map fun p => (⟨p, o⟩ : Allocation)).Nodup :=
    List.pairwise_map.2 (List.Pairwise.imp (fun hne he => hne (Allocation.mk.inj he).1) hg.distinct)
  have hapart : ∀ a ∈ ps.map fun p => (⟨p, o⟩ : Allocation), ∀ b ∈ h.allocations, a ≠ b := by
    intro a ha b hold he
    obtain ⟨p, hp, rfl⟩ := List.mem_map.1 ha
    exact hw.block?_eq_none.1 (hg.new p hp) o (he ▸ hold)
  refine (List.perm_ext_iff_of_nodup hw'.nodup_registry
    (List.nodup_append.2 ⟨hnew, hw.nodup_registry, hapart⟩)).2 fun a => ?_
  rw [List.mem_append, List.mem_map]
  refine (hg.mem_registry hw hw').trans (or_congr_left ?_)
  constructor
  · intro ⟨hp, ho⟩
    exact ⟨a.pointer, hp, by rw [← ho]⟩
  · intro ⟨p, hp, ha⟩
    rw [← ha]
    exact ⟨hp, rfl⟩

/-- The heap is as it was if and only if no range is new. -/
theorem unchanged_iff :
    (h'.bytes = h.bytes ∧ h'.reserved = h.reserved ∧ h'.allocations = h.allocations) ↔
      ps.length = 0 := by
  have hperm := hg.allocations_perm hw hw'
  constructor
  · intro ⟨_, _, hsame⟩
    have hlen := hperm.length_eq
    simp only [hsame, List.length_append, List.length_map] at hlen
    omega
  · intro hnil
    rw [List.length_eq_zero_iff.1 hnil] at hperm
    have hreg : h'.registry = h.registry := hw.registry_eq hw' fun a => hperm.mem_iff
    exact ⟨hw.bytes_eq hw' hg.capacity hreg fun a ha => hg.bytesAt_eq hw hw' ha,
      hw.reserved_eq hw' hg.capacity hreg, hreg⟩

end WellFormed

end Gained

end Heap

/-! ## Evaluation of operator expressions -/

namespace Exec

variable {α : Type} {m : Machine} {σ τ υ : Store} {e operand left right : Expr}
  {v l r : Variable} {line : Nat}

def IsTypeFault (f : Option Fault) : Prop := f.map Fault.code = some .invalidOperandType

/-- From `σ` to `τ`, the plain expression `e` was evaluated to `v`. -/
structure Finished (e : Expr) (σ : Store) (v : Variable) (τ : Store) : Prop where
  sound : τ.Sound
  scopes : τ.scopes = σ.scopes
  type : e.type? σ.scopes.typeOf? = some v.type
  size : v.pointer.size = v.type.size
  gained : ∃ ps, ps.length + 1 = e.temporaries ∧
    σ.heap.Gained (.temporary σ.scopes.currentId) (v.pointer :: ps) τ.heap

/-- From `σ` to `τ`, the plain expression `e` was evaluated up to a type fault. -/
structure Mistyped (e : Expr) (σ τ : Store) : Prop where
  sound : τ.Sound
  scopes : τ.scopes = σ.scopes
  type : e.type? σ.scopes.typeOf? = none
  gained : ∃ ps, ps.length = e.strays σ.scopes.typeOf? ∧
    σ.heap.Gained (.temporary σ.scopes.currentId) ps τ.heap

/-- The computation `x`, run on `m`, ends the evaluation of `e` that began in `σ`. -/
def Completes (e : Expr) (σ : Store) (x : Exec Variable) (m : Machine) : Prop :=
  Spec x m (fun _ => True) (fun f m' => IsTypeFault f → Mistyped e σ m'.store)
    fun v m' => Finished e σ v m'.store

theorem Finished.block (h : Finished e σ v τ) :
    ∃ bytes, τ.block? v.pointer = some ⟨.temporary σ.scopes.currentId, bytes⟩ := by
  obtain ⟨ps, -, hg⟩ := h.gained
  exact hg.owner _ List.mem_cons_self

/-! ### Faults of operands -/

theorem Mistyped.of_operand (op : UnaryOp) (h : Mistyped operand σ τ) :
    Mistyped (.unary op operand line) σ τ := by
  refine ⟨h.sound, h.scopes, ?_, ?_⟩
  · simp [Expr.type?, h.type]
  · simpa [Expr.strays, h.type] using h.gained

theorem Mistyped.of_left (op : BinaryOp) (h : Mistyped left σ τ) :
    Mistyped (.binary op left right line) σ τ := by
  refine ⟨h.sound, h.scopes, ?_, ?_⟩
  · simp [Expr.type?, h.type]
  · simpa [Expr.strays, h.type] using h.gained

/-- The temporaries of the left operand are among the strays of a fault in the right one. -/
theorem Mistyped.of_right (op : BinaryOp) (hl : Finished left σ l τ) (h : Mistyped right τ υ) :
    Mistyped (.binary op left right line) σ υ := by
  obtain ⟨hs, hscopes, htype, qs, hqs, hr⟩ := h
  obtain ⟨ps, hps, hg⟩ := hl.gained
  rw [hl.scopes] at hscopes htype hqs hr
  have hstrays : (Expr.binary op left right line).strays σ.scopes.typeOf? =
      left.temporaries + right.strays σ.scopes.typeOf? := by
    simp [Expr.strays, hl.type, htype]
  refine ⟨hs, hscopes, ?_, _, ?_, hg.trans hr⟩
  · simp [Expr.type?, hl.type, htype]
  · rw [List.length_append, List.length_cons]
    omega

/-! ### Steps -/

theorem Completes.of_stores {x : Exec Variable} {Q : Variable → Machine → Prop}
    (hx : Stores Nothing x m Q)
    (h : ∀ v m', HeapWork Nothing m m' → Q v m' → Finished e σ v m'.store) :
    Completes e σ x m := by
  refine Spec.mono hx (fun _ _ => trivial) (fun f m' hf ht => ?_) fun v m' hv => h v m' hv.1 hv.2
  cases hf.1.symm.trans ht

theorem Completes.bind_stores {x : Exec α} {f : α → Exec Variable} {Q : α → Machine → Prop}
    (hx : Stores Nothing x m Q)
    (h : ∀ a m', HeapWork Nothing m m' → Q a m' → Completes e σ (f a) m') :
    Completes e σ (x >>= f) m := by
  refine Spec.bind (Spec.mono hx (fun _ _ => trivial) (fun f m' hf ht => ?_)
    fun a m' ha => h a m' ha.1 ha.2)
  cases hf.1.symm.trans ht

/-- The value of an expression is put into a new temporary, after those of its operands. -/
theorem Finished.of_puts {bytes : List UInt8} {ps : List Pointer} (hs : υ.Sound)
    (hscopes : τ.scopes = σ.scopes) (htype : e.type? σ.scopes.typeOf? = some v.type)
    (hsize : v.pointer.size = v.type.size) (hlen : ps.length + 1 = e.temporaries)
    (hg : σ.heap.Gained (.temporary σ.scopes.currentId) ps τ.heap)
    (hnone : τ.block? v.pointer = none)
    (hputs : τ.Puts υ v.pointer (some ⟨.temporary τ.scopes.currentId, bytes⟩)) :
    Finished e σ v υ := by
  rw [hscopes] at hputs
  exact ⟨hs, hputs.scopes.trans hscopes, htype, hsize, ps, hlen, hg.trans (.of_puts hputs hnone)⟩

theorem completes_allocValue {value : Value} {ps : List Pointer} (hs : m.store.Sound)
    (hscopes : m.scopes = σ.scopes) (htype : e.type? σ.scopes.typeOf? = some value.type)
    (hlen : ps.length + 1 = e.temporaries)
    (hg : σ.heap.Gained (.temporary σ.scopes.currentId) ps m.heap) :
    Completes e σ (allocValue value) m := by
  apply Completes.of_stores (stores_allocValue hs Nothing.live value)
  intro v m' hw ⟨hvtype, hsize, hnone, bytes, _, hputs⟩
  rw [← hvtype] at htype hsize
  exact .of_puts hw.sound hscopes htype hsize hlen hg hnone hputs

theorem completes_readIdentifier (name : String) (hs : m.store.Sound) :
    Completes (.identifier name line) m.store (readIdentifier name) m := by
  unfold readIdentifier
  refine Spec.bind (Spec.view ?_)
  cases hl : m.scopes.lookupVariable name with
  | none => exact Spec.raise fun ht => by cases ht
  | some v =>
    obtain ⟨s, -, hvsize, bytes, hb⟩ := hs.holds_of_binds (binds_of_lookup (σ := m.store) hl)
    refine Spec.bind (Spec.view ?_)
    apply Completes.of_stores (stores_duplicate hs Nothing.live hb
      (o := .temporary m.scopes.currentId) hs.currentId_open)
    intro w m' hw ⟨htype, hsize, hnone, hputs⟩
    refine .of_puts hw.sound rfl ?_ ?_ rfl (.refl _ _) hnone hputs
    · rw [htype]
      exact congrArg (Option.map Variable.type) hl
    · rw [hsize, hvsize, htype]

/-- Of what was gained, the values discarded go. -/
theorem stores_discard_gained {h : Heap} {s : ScopeId} {vs : List Variable} {ps : List Pointer}
    (hs : m.store.Sound) (hg : h.Gained (.temporary s) ps m.heap)
    (hvs : ∀ v ∈ vs, v.pointer ∈ ps) (hnodup : (vs.map (·.pointer)).Nodup) :
    Stores Nothing (discard vs) m fun _ m' =>
      ∃ qs, qs.length + vs.length = ps.length ∧ h.Gained (.temporary s) qs m'.heap := by
  induction vs generalizing m ps with
  | nil => exact stores_pure hs Nothing.live ⟨ps, rfl, hg⟩
  | cons v vs ih =>
    have hv : v.pointer ∈ ps := hvs v List.mem_cons_self
    obtain ⟨bytes, hb⟩ := hg.owner _ hv
    have htemp : isTemporary m v = true := (isTemporary_iff hs).2 ⟨_, hb, rfl⟩
    obtain ⟨hfirst, hrest⟩ := List.nodup_cons.1 hnodup
    unfold discard
    refine Stores.bind
      (stores_view hs Nothing.live (Q := fun a m' => a = true ∧ m = m') ⟨htemp, rfl⟩) ?_
    rintro _ _ - ⟨rfl, rfl⟩
    refine Stores.bind
      (stores_free hs Nothing.live hb (fun h => h) (hs.not_bound_of_temporary hb)) ?_
    intro _ m₁ hw hputs
    have hvs' : ∀ w ∈ vs, w.pointer ∈ ps.erase v.pointer := by
      intro w hw
      have hne : w.pointer ≠ v.pointer := fun he => hfirst (List.mem_map.2 ⟨w, hw, he⟩)
      exact hg.distinct.mem_erase_iff.2 ⟨hne, hvs w (List.mem_cons_of_mem _ hw)⟩
    refine (ih hw.sound (hg.erase hv hputs) hvs' hrest).mono fun _ m₂ _ hgained => ?_
    obtain ⟨qs, hlen, hqs⟩ := hgained
    refine ⟨qs, ?_, hqs⟩
    have hpos := List.length_pos_of_mem hv
    rw [List.length_erase_of_mem hv] at hlen
    simp only [List.length_cons]
    omega

/-- An operator that does not take its operands discards them and stops. -/
theorem completes_discard {vs : List Variable} {ps : List Pointer} {mismatch : Mismatch}
    (hs : m.store.Sound) (hscopes : m.scopes = σ.scopes)
    (htype : e.type? σ.scopes.typeOf? = none)
    (hg : σ.heap.Gained (.temporary σ.scopes.currentId) ps m.heap)
    (hvs : ∀ v ∈ vs, v.pointer ∈ ps) (hnodup : (vs.map (·.pointer)).Nodup)
    (hlen : ps.length = e.strays σ.scopes.typeOf? + vs.length) :
    Completes e σ (do discard vs; raise (.operandType mismatch)) m := by
  apply Completes.bind_stores (stores_discard_gained hs hg hvs hnodup)
  intro _ m' hw ⟨qs, hqs, hg'⟩
  refine Spec.raise fun _ => ⟨hw.sound, hw.same.scopes.trans hscopes, htype, qs, ?_, hg'⟩
  omega

theorem completes_applyUnary (op : UnaryOp) (h : Finished operand σ v m.store) :
    Completes (.unary op operand line) σ (applyUnary op v) m := by
  obtain ⟨bytes, hb⟩ := h.block
  obtain ⟨ps, hlen, hg⟩ := h.gained
  have htype := h.type
  unfold applyUnary
  split
  · rename_i hnumber
    apply Completes.bind_stores (stores_readNumber h.sound Nothing.live op hb h.size hnumber)
    intro n m' _ ⟨hm, _⟩
    subst hm
    refine completes_allocValue h.sound h.scopes ?_ ?_ hg
    · simp [Expr.type?, htype, hnumber, Value.type]
    · simpa [Expr.temporaries] using hlen
  · rename_i hnumber
    have hstrays : (Expr.unary op operand line).strays σ.scopes.typeOf? =
        operand.temporaries - 1 := by
      simp [Expr.strays, htype]
    refine completes_discard h.sound h.scopes ?_ hg (by simp) (by simp) ?_
    · simp [Expr.type?, htype, hnumber]
    · rw [List.length_cons, List.length_singleton]
      omega

theorem completes_applyBinary (op : BinaryOp) (hl : Finished left σ l τ)
    (hr : Finished right τ r m.store) :
    Completes (.binary op left right line) σ (applyBinary op l r) m := by
  obtain ⟨bytes, hb⟩ := hl.block
  obtain ⟨bytes', hb'⟩ := hr.block
  obtain ⟨ps, hps, hgl⟩ := hl.gained
  obtain ⟨qs, hqs, hgr⟩ := hr.gained
  -- The left value was live before the right operand was evaluated, whose temporaries are new.
  have hold : l.pointer ∉ r.pointer :: qs := by
    intro hmem
    have hnone := hgr.new _ hmem
    cases hnone.symm.trans hb
  replace hb : m.store.block? l.pointer = _ := (hgr.others _ hold).trans hb
  have hscopes : m.scopes = σ.scopes := hr.scopes.trans hl.scopes
  have htyper := hr.type
  rw [hl.scopes] at hgr htyper
  have hg := hgl.trans hgr
  unfold applyBinary
  apply Completes.bind_stores (stores_readValue hr.sound Nothing.live hb hl.size)
  intro a m' _ ⟨hm, hdec⟩
  subst hm
  apply Completes.bind_stores (stores_readValue hr.sound Nothing.live hb' hr.size)
  intro b m' _ ⟨hm, hdec'⟩
  subst hm
  have htype : (Expr.binary op left right line).type? σ.scopes.typeOf? =
      (op.apply a b).map Value.type := by
    rw [op.type_apply, Value.type_of_decode hdec, Value.type_of_decode hdec']
    simp [Expr.type?, hl.type, htyper]
  cases happly : op.apply a b with
  | some value =>
    refine completes_allocValue hr.sound hscopes ?_ ?_ hg
    · rw [htype, happly]
      rfl
    · simp only [List.cons_append, List.length_cons, List.length_append, Expr.temporaries]
      omega
  | none =>
    have hstrays : (Expr.binary op left right line).strays σ.scopes.typeOf? =
        (left.temporaries - 1) + (right.temporaries - 1) := by
      simp [Expr.strays, hl.type, htyper]
    refine completes_discard hr.sound hscopes ?_ hg (by simp) ?_ ?_
    · rw [htype, happly]
      rfl
    · simp only [List.mem_cons, not_or] at hold
      simpa using hold.1
    · simp only [List.cons_append, List.length_cons, List.length_append, List.length_nil]
      omega

/-! ### Runs -/

/-- The current line does not matter. -/
theorem Completes.goToLine {f : Unit → Exec Variable}
    (h : ∀ m', m'.store = m.store → Completes e m'.store (f ()) m') :
    Completes e m.store (goToLine line >>= f) m := by
  have hstore : Machine.store (if 0 < line then { m with line } else m) = m.store := by
    split <;> rfl
  have hf := h _ hstore
  rw [hstore] at hf
  exact Spec.bind (Spec.update trivial hf)

theorem completes_eval {fuel : Nat} (he : e.isPlain = true) (hs : m.store.Sound) :
    Completes e m.store (eval fuel e) m := by
  induction fuel generalizing e m with
  | zero => exact Spec.outOfFuel fun ht => by cases ht
  | succ fuel ih =>
    unfold eval
    refine .goToLine fun m₁ hstore => ?_
    rw [← hstore] at hs
    cases e with
    | literal value line => exact completes_allocValue hs rfl rfl rfl (.refl _ _)
    | identifier name line => exact completes_readIdentifier name hs
    | unary op operand line =>
      have ho : operand.isPlain = true := he
      refine Spec.bind ((ih ho hs).mono (fun _ h => h) (fun _ _ h ht => (h ht).of_operand op) ?_)
      exact fun v m₂ hv => completes_applyUnary op hv
    | binary op left right line =>
      obtain ⟨hl, hr⟩ := Bool.and_eq_true_iff.1 he
      refine Spec.bind ((ih hl hs).mono (fun _ h => h) (fun _ _ h ht => (h ht).of_left op) ?_)
      intro l m₂ hfl
      refine Spec.bind ((ih hr hfl.sound).mono (fun _ h => h)
        (fun _ _ h ht => (h ht).of_right op hfl) ?_)
      exact fun r m₃ hfr => completes_applyBinary op hfl hfr
    | assign | print | call | composite => cases he

end Exec

/-! ## Main result -/

/-- A type fault in an expression of literals, names and operators leaves one temporary of the
current scope for each of its strays, and all that was live as it was. So the bytes, the flags and
the live allocations are those before if and only if there are no strays. -/
theorem type_fault_leaves_strays {m : Machine} (h : m.Visited) {e : Expr}
    (he : e.isPlain = true) {fuel : Nat} {f : Fault} {m' : Machine}
    (hf : Exec.eval fuel e m = .fault f m') (hcode : f.code = .invalidOperandType) :
    (∃ strays : List Allocation, strays.length = e.strays m.scopes.typeOf? ∧
      (∀ a ∈ strays, a.ownership = .temporary m.scopes.currentId) ∧
      m'.heap.allocations.Perm (strays ++ m.heap.allocations)) ∧
    (∀ a ∈ m.heap.allocations, m'.heap.bytesAt a.pointer = m.heap.bytesAt a.pointer) ∧
    (m'.heap.bytes = m.heap.bytes ∧ m'.heap.reserved = m.heap.reserved ∧
        m'.heap.allocations = m.heap.allocations ↔
      e.strays m.scopes.typeOf? = 0) := by
  have hmistyped := (Exec.completes_eval he h.sound).fault f m' hf (congrArg some hcode)
  obtain ⟨ps, hlen, hg⟩ := hmistyped.gained
  have hw : m.heap.WellFormed := h.sound.heap
  have hw' : m'.heap.WellFormed := hmistyped.sound.heap
  refine ⟨⟨_, ?_, ?_, hg.allocations_perm hw hw'⟩, ?_, ?_⟩
  · rw [List.length_map, hlen]
    rfl
  · intro a ha
    obtain ⟨p, -, rfl⟩ := List.mem_map.1 ha
    rfl
  · exact fun a ha => hg.bytesAt_eq hw hw' ha
  · exact (hg.unchanged_iff hw hw').trans (by rw [hlen]; rfl)

/-- `true && -(q || p)`. -/
def Expr.nestedMismatch : Expr :=
  .binary .and (.literal (.boolean true) 5)
    (.unary .neg (.binary .or (.identifier "q" 5) (.identifier "p" 5) 5) 5) 5

/-- The value of `true` and the copies of `q` and `p` stay behind `true && -(q || p)`; nothing stays
behind `q + p`. -/
theorem type_fault_leaves_strays_stranded :
    Machine.stranded.Visited ∧
    (∃ m', Exec.eval 4 .nestedMismatch .stranded = .fault (.operandType (.unary .neg .boolean)) m' ∧
      ∃ strays : List Allocation, strays.length = 3 ∧
        (∀ a ∈ strays, a.ownership = .temporary 1) ∧
        m'.heap.allocations.Perm (strays ++ Machine.stranded.heap.allocations)) ∧
    ∃ m', Exec.eval 2 (.binary .add (.identifier "q" 5) (.identifier "p" 5) 5) .stranded =
        .fault (.operandType (.binary .add .boolean .boolean)) m' ∧
      m'.heap.bytes = Machine.stranded.heap.bytes ∧
      m'.heap.reserved = Machine.stranded.heap.reserved ∧
      m'.heap.allocations = Machine.stranded.heap.allocations := by
  have hvisited : Machine.stranded.Visited := .reached Machine.reachable_stranded
  refine ⟨hvisited, ?_, ?_⟩
  · have hf : Exec.eval 4 .nestedMismatch .stranded =
        .fault (.operandType (.unary .neg .boolean)) _ := Outcome.eq_fault (by decide +kernel)
    obtain ⟨⟨strays, hlen, hown, hperm⟩, -⟩ := type_fault_leaves_strays hvisited rfl hf rfl
    rw [show Machine.stranded.scopes.currentId = 1 by decide +kernel] at hown
    exact ⟨_, hf, strays, hlen.trans (by decide +kernel), hown, hperm⟩
  · have hf : Exec.eval 2 (.binary .add (.identifier "q" 5) (.identifier "p" 5) 5) .stranded =
        .fault (.operandType (.binary .add .boolean .boolean)) _ :=
      Outcome.eq_fault (by decide +kernel)
    obtain ⟨-, -, hsame⟩ := type_fault_leaves_strays hvisited rfl hf rfl
    exact ⟨_, hf, hsame.2 (by decide +kernel)⟩

/-- On an empty heap, `-(true && true)` is a type fault that leaves the two values of `true`. -/
theorem type_fault_changes_heap :
    ∃ (m : Machine) (e : Expr) (f : Fault) (m' : Machine), m.Visited ∧ e.isPlain = true ∧
      Exec.eval 3 e m = .fault f m' ∧ f.code = .invalidOperandType ∧
      m.heap.allocations = [] ∧
      m'.heap.allocations = [⟨⟨6, 1, 2⟩, .temporary 0⟩, ⟨⟨7, 1, 1⟩, .temporary 0⟩] :=
  ⟨.initial [] { heapCapacity := 8 },
    .unary .neg (.binary .and (.literal (.boolean true) 1) (.literal (.boolean true) 1) 1) 1,
    .operandType (.unary .neg .boolean), _, .reached (.initial _ _), rfl,
    Outcome.eq_fault (by decide +kernel), rfl, by decide +kernel, by decide +kernel⟩

end HeapWalk
