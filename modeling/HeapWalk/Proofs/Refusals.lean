import HeapWalk.Proofs.HeapRequests
import HeapWalk.Proofs.Spec

/-!
# What a heap refuses

A `Heap.Call` is one call of an operation that is given handles, which may be live or stale, or come
from another heap. All these operations check their handles first, one after the other, and then
whether the value fits the range; a call that passes both is granted (`WellFormed.errsExactly`). A
handle passes exactly if the registry has an entry of its address, size and generation: the flag
that is looked at as well is set for every range that is registered.

The machine asks the heap before it changes anything (`Heap.Call.perform`), so a call that is
refused leaves it as it was.
-/

set_option autoImplicit false

namespace HeapWalk.Heap

inductive Call where
  | free (p : Pointer)
  | ownership (p : Pointer)
  | setOwnership (p : Pointer) (owner : Ownership)
  | adopt (p : Pointer) (scope : ScopeId)
  | release (p : Pointer) (scope : ScopeId)
  | readBytes (p : Pointer)
  | readValue (p : Pointer) (type : ValueType)
  | writeValue (p : Pointer) (value : Value)
  | copy (source target : Pointer)
deriving DecidableEq, Repr

/-- The error that a call returns, whatever it gives if it returns none. -/
def answer (h : Heap) : Call → Except HeapError Unit
  | .free p => (h.free p).map fun _ => ()
  | .ownership p => (h.ownership p).map fun _ => ()
  | .setOwnership p owner => (h.setOwnership p owner).map fun _ => ()
  | .adopt p scope => (h.adopt p scope).map fun _ => ()
  | .release p scope => (h.release p scope).map fun _ => ()
  | .readBytes p => (h.readBytes p).map fun _ => ()
  | .readValue p type => (h.readValue p type).map fun _ => ()
  | .writeValue p value => (h.writeValue p value).map fun _ => ()
  | .copy source target => (h.copy source target).map fun _ => ()

namespace Call

/-- The handles that a call is given, in order. -/
def handles : Call → List Pointer
  | free p | ownership p | setOwnership p _ | adopt p _ | release p _ | readBytes p | readValue p _
  | writeValue p _ => [p]
  | copy source target => [source, target]

/-- The range that does not fit, and the number of bytes that it would need: for a value its size at
least, for a copy the size of the source. -/
def misfit? : Call → Option (Pointer × Nat)
  | readValue p type => if p.size < type.size then some (p, type.size) else none
  | writeValue p value => if p.size < value.type.size then some (p, value.type.size) else none
  | copy source target =>
    if source.size = target.size then none else some (target, source.size)
  | free _ | ownership _ | setOwnership _ _ | adopt _ _ | release _ _ | readBytes _ => none

/-- The call as an operation of the machine. -/
def perform : Call → Exec Unit
  | free p => Exec.free p
  | ownership p => do
    let _ ← Exec.askHeap fun h => h.ownership p
  | setOwnership p owner => Exec.setOwnership p owner
  | adopt p scope => Exec.setOwnership p (.owned scope)
  | release p scope => Exec.setOwnership p (.temporary scope)
  | readBytes p => do
    let _ ← Exec.askHeap fun h => h.readBytes p
  | readValue p type => do
    let _ ← Exec.readValue ⟨p, type⟩
  | writeValue p value => Exec.writeValue p value
  | copy source target => Exec.copy source target

end Call

/-- The registry has an entry for the handle. -/
def Registered (h : Heap) (p : Pointer) : Prop :=
  ∃ a ∈ h.allocations, a.pointer.address = p.address ∧ a.pointer.size = p.size ∧
    a.pointer.generation = p.generation

instance (h : Heap) (p : Pointer) : Decidable (h.Registered p) :=
  inferInstanceAs (Decidable (∃ a ∈ h.allocations, _))

/-- The first handle that is not registered. -/
def firstUnregistered? (h : Heap) (ps : List Pointer) : Option Pointer :=
  ps.find? fun p => !decide (h.Registered p)

/-- The call returns the errors that its handles and sizes call for, and no others. -/
structure ErrsExactly (h : Heap) (c : Call) : Prop where
  invalid : ∀ p, h.answer c = .error (.invalidPointer p) ↔ h.firstUnregistered? c.handles = some p
  overrun : ∀ p n, h.answer c = .error (.overrun p n) ↔
    h.firstUnregistered? c.handles = none ∧ c.misfit? = some (p, n)
  granted : h.answer c = .ok () ↔ h.firstUnregistered? c.handles = none ∧ c.misfit? = none

/-! ## Handles -/

theorem registered_iff {h : Heap} {p : Pointer} :
    h.Registered p ↔ ∃ o, ⟨p, o⟩ ∈ h.registry := by
  constructor
  · rintro ⟨⟨q, o⟩, ha, haddress, hsize, hgeneration⟩
    obtain rfl : q = p := by
      cases q
      cases p
      simp_all
    exact ⟨o, ha⟩
  · rintro ⟨o, ha⟩
    exact ⟨_, ha, rfl, rfl, rfl⟩

section Handles

variable {h : Heap} (hw : h.WellFormed) {p : Pointer} {ps : List Pointer}
include hw

theorem WellFormed.validate_of_not_registered (hp : ¬ h.Registered p) :
    h.validate p = .error (.invalidPointer p) := by
  refine hw.validate_eq_error (hw.block?_eq_none.2 fun o ho => hp ?_)
  exact registered_iff.2 ⟨o, ho⟩

theorem WellFormed.exists_block_of_registered (hp : h.Registered p) : ∃ b, h.block? p = some b := by
  obtain ⟨o, ho⟩ := registered_iff.1 hp
  exact ⟨⟨o, h.bytesAt p⟩, hw.block?_eq_some.2 ⟨ho, rfl⟩⟩

theorem WellFormed.exists_blocks (hps : h.firstUnregistered? ps = none) :
    ∀ p ∈ ps, ∃ b, h.block? p = some b := by
  intro p hp
  exact hw.exists_block_of_registered (by simpa using List.find?_eq_none.1 hps p hp)

end Handles

/-! ## Answers -/

/-- The first handle is checked before anything else. -/
theorem answer_of_validate {h : Heap} {c : Call} {p : Pointer} {rest : List Pointer} {e : HeapError}
    (hc : c.handles = p :: rest) (hv : h.validate p = .error e) : h.answer c = .error e := by
  cases c with
  | free q | ownership q | setOwnership q owner | adopt q scope | release q scope | readBytes q
  | readValue q type | writeValue q value | copy q target =>
    obtain ⟨rfl, -⟩ := List.cons.inj hc
    simp only [answer, Heap.free, Heap.ownership, Heap.adopt, Heap.release, Heap.setOwnership,
      Heap.readValue, Heap.readBytes, Heap.writeValue, bytesToWrite, Heap.copy, bytesToCopy, hv]
    rfl

/-- The first handle that is not registered is the first one, or it is the target of a copy. -/
theorem handles_of_firstUnregistered? {h : Heap} {c : Call} {p : Pointer}
    (hp : h.firstUnregistered? c.handles = some p) :
    (∃ rest, c.handles = p :: rest) ∨ ∃ source, c = .copy source p ∧ h.Registered source := by
  have hfirst : ∀ {q : Pointer} {qs : List Pointer}, ¬ h.Registered q →
      h.firstUnregistered? (q :: qs) = some q := fun hq => by simp [firstUnregistered?, hq]
  have hnext : ∀ {q : Pointer} {qs : List Pointer}, h.Registered q →
      h.firstUnregistered? (q :: qs) = h.firstUnregistered? qs := fun hq => by
    simp [firstUnregistered?, hq]
  cases c with
  | copy source target =>
    by_cases hs : h.Registered source
    · right
      rw [Call.handles, hnext hs] at hp
      exact ⟨source, by rw [List.mem_singleton.1 (List.mem_of_find?_eq_some hp)], hs⟩
    · left
      rw [Call.handles, hfirst hs] at hp
      exact ⟨[target], by rw [Option.some.inj hp]; rfl⟩
  | _ => exact .inl ⟨[], by rw [List.mem_singleton.1 (List.mem_of_find?_eq_some hp)]; rfl⟩

section Answers

variable {h : Heap} (hw : h.WellFormed) {c : Call} {p : Pointer}
include hw

theorem WellFormed.answer_of_unregistered (hp : h.firstUnregistered? c.handles = some p) :
    h.answer c = .error (.invalidPointer p) := by
  have hnot : ¬ h.Registered p := by simpa using List.find?_some hp
  have hv := hw.validate_of_not_registered hnot
  rcases handles_of_firstUnregistered? hp with ⟨rest, hc⟩ | ⟨source, rfl, hs⟩
  · exact answer_of_validate hc hv
  · obtain ⟨b, hb⟩ := hw.exists_block_of_registered hs
    rw [answer, Heap.copy, bytesToCopy, hw.validate_eq_ok hb, hv]
    rfl

theorem WellFormed.answer_of_misfit {n : Nat} (hreg : h.firstUnregistered? c.handles = none)
    (hn : c.misfit? = some (p, n)) : h.answer c = .error (.overrun p n) := by
  have hblock := hw.exists_blocks hreg
  cases c with
  | readValue q type =>
    obtain ⟨hsize, heq⟩ := Option.ite_none_right_eq_some.1 hn
    obtain ⟨rfl, rfl⟩ := Prod.mk.inj (Option.some.inj heq)
    obtain ⟨b, hb⟩ := hblock _ (List.mem_singleton_self _)
    rw [answer, hw.readValue_eq hb, Value.decode_eq_none (by rwa [hw.length_bytes hb])]
    rfl
  | writeValue q value =>
    obtain ⟨hsize, heq⟩ := Option.ite_none_right_eq_some.1 hn
    obtain ⟨rfl, rfl⟩ := Prod.mk.inj (Option.some.inj heq)
    obtain ⟨b, hb⟩ := hblock _ (List.mem_singleton_self _)
    rw [answer, Heap.writeValue, hw.bytesToWrite_eq hb, Value.encode_eq_none hsize]
    rfl
  | copy source target =>
    obtain ⟨hsize, heq⟩ := Option.ite_none_left_eq_some.1 hn
    obtain ⟨rfl, rfl⟩ := Prod.mk.inj (Option.some.inj heq)
    obtain ⟨b, hb⟩ := hblock source (by simp [Call.handles])
    obtain ⟨b', hb'⟩ := hblock target (by simp [Call.handles])
    rw [answer, Heap.copy, bytesToCopy, hw.validate_eq_ok hb, hw.validate_eq_ok hb', if_neg hsize]
    rfl
  | _ => cases hn

theorem WellFormed.answer_of_fit (hreg : h.firstUnregistered? c.handles = none)
    (hn : c.misfit? = none) : h.answer c = .ok () := by
  have hblock := hw.exists_blocks hreg
  cases c with
  | free q | setOwnership q owner | adopt q scope | release q scope | readBytes q =>
    obtain ⟨b, hb⟩ := hblock _ (List.mem_singleton_self _)
    simp only [answer, Heap.free, Heap.adopt, Heap.release, Heap.setOwnership, Heap.readBytes,
      hw.validate_eq_ok hb]
    rfl
  | ownership q =>
    obtain ⟨b, hb⟩ := hblock _ (List.mem_singleton_self _)
    rw [answer, hw.ownership_eq_ok hb]
    rfl
  | readValue q type =>
    obtain ⟨b, hb⟩ := hblock _ (List.mem_singleton_self _)
    have hsize : type.size ≤ b.bytes.length := by
      rw [hw.length_bytes hb]
      simpa [Call.misfit?] using hn
    obtain ⟨v, hv⟩ := Value.decode_isSome hsize
    rw [answer, hw.readValue_eq hb, hv]
    rfl
  | writeValue q value =>
    obtain ⟨b, hb⟩ := hblock _ (List.mem_singleton_self _)
    have hsize : value.type.size ≤ q.size := by simpa [Call.misfit?] using hn
    obtain ⟨bytes, he⟩ := value.encode_isSome hsize
    rw [answer, hw.writeValue_eq_ok.2 ⟨b, bytes, hb, he, rfl⟩]
    rfl
  | copy source target =>
    obtain ⟨b, hb⟩ := hblock source (by simp [Call.handles])
    obtain ⟨b', hb'⟩ := hblock target (by simp [Call.handles])
    have hsize : source.size = target.size := by simpa [Call.misfit?] using hn
    rw [answer, hw.copy_eq_ok.2 ⟨b, b', hb, hb', hsize, rfl⟩]
    rfl

theorem WellFormed.errsExactly (c : Call) : h.ErrsExactly c := by
  cases hreg : h.firstUnregistered? c.handles with
  | some q =>
    have ha := hw.answer_of_unregistered hreg
    exact ⟨fun p => by simp [ha, hreg], fun p n => by simp [ha, hreg], by simp [ha, hreg]⟩
  | none =>
    cases hn : c.misfit? with
    | some x =>
      have ha := hw.answer_of_misfit (p := x.1) (n := x.2) hreg hn
      refine ⟨fun p => by simp [ha, hreg], fun p n => ?_, by simp [ha, hn]⟩
      rw [ha, hreg, hn]
      simp [Prod.ext_iff]
    | none =>
      have ha := hw.answer_of_fit hreg hn
      exact ⟨fun p => by simp [ha, hreg], fun p n => by simp [ha, hn], by simp [ha, hreg, hn]⟩

end Answers

/-! ## The machine -/

section Machine

open Exec

variable {m m' : Machine}

/-- An operation that checks something before its effect fails with the check. -/
theorem map_bind_ok {α β : Type} (x : Except HeapError α) (f : α → β) :
    (x >>= fun a => .ok (f a)).map (fun _ => ()) = x.map fun _ => () := by
  cases x <;> rfl

/-- A call asks the heap, which answers as to the call itself, and then does what cannot fail. -/
theorem Call.exists_question (c : Call) :
    ∃ (α : Type) (f : Heap → Except HeapError α) (g : α → Exec Unit), c.perform = askHeap f >>= g ∧
      (∀ a m, ∃ m', g a m = .done () m') ∧ ∀ h : Heap, h.answer c = (f h).map fun _ => () := by
  cases c with
  | free p =>
    exact ⟨_, fun h => h.validate p, _, rfl, fun _ _ => ⟨_, rfl⟩, fun h => map_bind_ok _ _⟩
  | setOwnership p owner =>
    exact ⟨_, fun h => h.validate p, _, rfl, fun _ _ => ⟨_, rfl⟩, fun h => map_bind_ok _ _⟩
  | adopt p scope =>
    exact ⟨_, fun h => h.validate p, _, rfl, fun _ _ => ⟨_, rfl⟩, fun h => map_bind_ok _ _⟩
  | release p scope =>
    exact ⟨_, fun h => h.validate p, _, rfl, fun _ _ => ⟨_, rfl⟩, fun h => map_bind_ok _ _⟩
  | ownership p =>
    exact ⟨_, fun h => h.ownership p, _, rfl, fun _ _ => ⟨_, rfl⟩, fun _ => rfl⟩
  | readBytes p =>
    exact ⟨_, fun h => h.readBytes p, _, rfl, fun _ _ => ⟨_, rfl⟩, fun _ => rfl⟩
  | readValue p type =>
    exact ⟨_, fun h => h.readValue p type, _, rfl, fun _ _ => ⟨_, rfl⟩, fun _ => rfl⟩
  | writeValue p value =>
    exact ⟨_, fun h => h.bytesToWrite p value, _, rfl, fun _ _ => ⟨_, rfl⟩,
      fun h => map_bind_ok _ _⟩
  | copy source target =>
    exact ⟨_, fun h => h.bytesToCopy source target, _, rfl, fun _ _ => ⟨_, rfl⟩,
      fun h => map_bind_ok _ _⟩

/-- The machine refuses what its heap refuses, and is then left as it was. -/
theorem Call.perform_eq_fault {c : Call} {e : Fault} :
    c.perform m = .fault e m' ↔
      ∃ cause, m.heap.answer c = .error cause ∧ e = .heap cause ∧ m' = m := by
  obtain ⟨α, f, g, hperform, hg, hanswer⟩ := c.exists_question
  rw [hperform, hanswer]
  cases hf : f m.heap with
  | error cause =>
    rw [bind_of_fault (askHeap_eq_fault hf)]
    simp [Except.map, eq_comm]
  | ok a =>
    obtain ⟨m₁, hm₁⟩ := hg a m
    rw [bind_of_done (askHeap_eq_done hf), hm₁]
    simp [Except.map]

end Machine

/-! ## Main result -/

/-- Whatever was asked of a heap before, a call is refused for the first of its handles that is not
registered, else for a range that does not fit, and else not at all; and a machine with this heap
that makes the call is left as it was if the call is refused. -/
theorem errors_are_exact_and_atomic (capacity : Nat) (requests : List Request) (c : Call) :
    let h := (ofCapacity capacity).afterAll requests
    h.ErrsExactly c ∧ ∀ (m m' : Machine) (e : Fault), c.perform { m with heap := h } = .fault e m' ↔
      ∃ cause, h.answer c = .error cause ∧ e = .heap cause ∧ m' = { m with heap := h } := by
  intro h
  have hw : h.WellFormed := (wellFormed_ofCapacity capacity).afterAll requests
  exact ⟨hw.errsExactly c, fun m m' e => Call.perform_eq_fault⟩

/-- A copy from a range that was handed out again to one of another heap names its source, and a
copy between live ranges of two sizes its target. -/
example :
    let h := (ofCapacity 12).afterAll [.allocate 8 (.temporary 0), .free ⟨4, 8, 1⟩,
      .allocate 8 (.owned 0), .allocate 2 (.owned 0)]
    h.answer (.copy ⟨4, 8, 1⟩ ⟨9, 9, 9⟩) = .error (.invalidPointer ⟨4, 8, 1⟩) ∧
      h.answer (.copy ⟨4, 8, 2⟩ ⟨9, 9, 9⟩) = .error (.invalidPointer ⟨9, 9, 9⟩) ∧
      h.answer (.copy ⟨4, 8, 2⟩ ⟨2, 2, 3⟩) = .error (.overrun ⟨2, 2, 3⟩ 8) := by
  decide

end HeapWalk.Heap
