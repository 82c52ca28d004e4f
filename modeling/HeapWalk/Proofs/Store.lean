import HeapWalk.Machine.Basic
import HeapWalk.Proofs.HeapBlocks
import HeapWalk.Proofs.Scopes

/-!
# Bindings and their storage

`Store.Sound σ` ties the scopes to the heap: ids of contexts rise with the stack; the names of a
context stand in order, each once; every bound variable names a live range of the size of its type,
which its context owns; two names never share a range; and whatever is live belongs to a scope that
is open.

`Store.Frame P σ τ` says what of `σ` is left in `τ`: every range in `P` is live in both, belongs to
the same owner, and holds the same bytes unless it is the storage of a binding.
-/

set_option autoImplicit false

namespace HeapWalk

/-- The part of a machine that storage is about. -/
structure Store where
  heap : Heap
  scopes : ScopeStack

def Machine.store (m : Machine) : Store := ⟨m.heap, m.scopes⟩

namespace Store

/-- What is kept for a handle, if it is live. -/
def block? (σ : Store) (p : Pointer) : Option Block := σ.heap.block? p

def Live (σ : Store) (p : Pointer) : Prop := ∃ b, σ.block? p = some b

/-- Some name is bound to `v`. -/
def Binds (σ : Store) (v : Variable) : Prop :=
  ∃ c ∈ σ.scopes.contexts, ∃ n, c.locals.get? n = some v

/-- The range of `p` is the storage of a binding. -/
def Bound (σ : Store) (p : Pointer) : Prop := ∃ v, σ.Binds v ∧ v.pointer = p

/-- The scope is open. -/
def Open (σ : Store) (s : ScopeId) : Prop := ∃ c ∈ σ.scopes.contexts, c.id = s

/-- `v` fits its range, which is live and belongs to `o`. -/
def Holds (σ : Store) (v : Variable) (o : Ownership) : Prop :=
  v.pointer.size = v.type.size ∧ ∃ bytes, σ.block? v.pointer = some ⟨o, bytes⟩

structure Sound (σ : Store) : Prop where
  heap : σ.heap.WellFormed
  nonempty : σ.scopes.contexts ≠ []
  ids : σ.scopes.contexts.Pairwise fun c d => d.id < c.id
  below : ∀ c ∈ σ.scopes.contexts, c.id < σ.scopes.nextId
  ordered : ∀ c ∈ σ.scopes.contexts, c.locals.Ordered
  owned : ∀ c ∈ σ.scopes.contexts, ∀ n v, c.locals.get? n = some v → σ.Holds v (.owned c.id)
  apart : ∀ c ∈ σ.scopes.contexts, ∀ n n' v v', c.locals.get? n = some v →
    c.locals.get? n' = some v' → v.pointer = v'.pointer → n = n'
  housed : ∀ p b, σ.block? p = some b → σ.Open b.owner.scope

structure Frame (P : Pointer → Prop) (σ τ : Store) : Prop where
  blocks : ∀ p, P p → ∃ b b', σ.block? p = some b ∧ τ.block? p = some b' ∧ b'.owner = b.owner ∧
    (σ.Bound p ∨ b'.bytes = b.bytes)
  bound : ∀ p, P p → τ.Bound p → σ.Bound p

theorem binds_of_lookup {σ : Store} {n : String} {v : Variable}
    (hl : σ.scopes.lookupVariable n = some v) : σ.Binds v := by
  obtain ⟨c, hc, hn⟩ := List.exists_of_findSome?_eq_some hl
  exact ⟨c, hc, n, hn⟩

theorem not_of_dead {P : Pointer → Prop} {σ : Store} (hP : ∀ p, P p → σ.Live p) {p : Pointer}
    (h : σ.block? p = none) : ¬ P p := by
  intro hp
  obtain ⟨b, hb⟩ := hP p hp
  rw [h] at hb
  cases hb

/-! ## Sound stores -/

namespace Sound

variable {σ : Store} (h : σ.Sound)
include h

theorem holds_of_binds {v : Variable} (hv : σ.Binds v) :
    ∃ s, σ.Open s ∧ σ.Holds v (.owned s) := by
  obtain ⟨c, hc, n, hn⟩ := hv
  exact ⟨c.id, ⟨c, hc, rfl⟩, h.owned c hc n v hn⟩

theorem live_of_bound {p : Pointer} (hp : σ.Bound p) :
    ∃ s bytes, σ.block? p = some ⟨.owned s, bytes⟩ := by
  obtain ⟨v, hv, rfl⟩ := hp
  obtain ⟨s, -, -, bytes, hb⟩ := h.holds_of_binds hv
  exact ⟨s, bytes, hb⟩

/-- A temporary is not the storage of a binding. -/
theorem not_bound_of_temporary {p : Pointer} {s : ScopeId} {bytes : List UInt8}
    (hb : σ.block? p = some ⟨.temporary s, bytes⟩) : ¬ σ.Bound p := by
  intro hp
  obtain ⟨s', bytes', hb'⟩ := h.live_of_bound hp
  rw [hb] at hb'
  cases hb'

theorem lt_nextId {p : Pointer} {b : Block} (hb : σ.block? p = some b) :
    b.owner.scope < σ.scopes.nextId := by
  obtain ⟨c, hc, hid⟩ := h.housed p b hb
  exact hid ▸ h.below c hc

theorem eq_of_id {c d : Context} (hc : c ∈ σ.scopes.contexts) (hd : d ∈ σ.scopes.contexts)
    (hid : c.id = d.id) : c = d := by
  by_contra hne
  have hs : Std.Symm fun c d : Context => c.id ≠ d.id := ⟨fun _ _ => Ne.symm⟩
  exact (h.ids.imp (S := fun c d => c.id ≠ d.id) fun hlt => Nat.ne_of_gt hlt).forall hc hd hne hid

theorem currentId_open : σ.Open σ.scopes.currentId := by
  obtain ⟨c, rest, hc⟩ := List.exists_cons_of_ne_nil h.nonempty
  refine ⟨c, by rw [hc]; exact List.mem_cons_self, ?_⟩
  rw [ScopeStack.currentId, hc]

/-- Storage that is bound under two names is bound under one. -/
theorem eq_of_pointer {c c' : Context} {n n' : String} {v v' : Variable}
    (hc : c ∈ σ.scopes.contexts) (hc' : c' ∈ σ.scopes.contexts) (hn : c.locals.get? n = some v)
    (hn' : c'.locals.get? n' = some v') (hp : v.pointer = v'.pointer) : c = c' ∧ n = n' := by
  obtain ⟨-, bytes, hb⟩ := h.owned c hc n v hn
  obtain ⟨-, bytes', hb'⟩ := h.owned c' hc' n' v' hn'
  rw [hp, hb', Option.some.injEq, Block.mk.injEq, Ownership.owned.injEq] at hb
  have hcc := h.eq_of_id hc hc' hb.1.symm
  subst hcc
  exact ⟨rfl, h.apart c hc n n' v v' hn hn' hp⟩

end Sound

/-- `τ` differs from `σ` in what is kept for `p`. -/
structure Puts (σ τ : Store) (p : Pointer) (b : Option Block) : Prop where
  scopes : τ.scopes = σ.scopes
  heap : τ.heap.WellFormed
  capacity : τ.heap.capacity = σ.heap.capacity
  blocks : ∀ q, τ.block? q = if q = p then b else σ.block? q

theorem Puts.self {σ τ : Store} {p : Pointer} {b : Option Block} (h : σ.Puts τ p b) :
    τ.block? p = b := by
  rw [h.blocks, if_pos rfl]

theorem Puts.other {σ τ : Store} {p q : Pointer} {b : Option Block} (h : σ.Puts τ p b)
    (hq : q ≠ p) : τ.block? q = σ.block? q := by
  rw [h.blocks, if_neg hq]

theorem Puts.trans {σ τ υ : Store} {p : Pointer} {b b' : Option Block} (h₁ : σ.Puts τ p b)
    (h₂ : τ.Puts υ p b') : σ.Puts υ p b' := by
  refine ⟨h₂.scopes.trans h₁.scopes, h₂.heap, h₂.capacity.trans h₁.capacity, fun q => ?_⟩
  by_cases hq : q = p
  · subst hq
    rw [h₂.self, if_pos rfl]
  · rw [h₂.other hq, h₁.other hq, if_neg hq]

/-- The heap of a sound store may change as long as what bindings own stays theirs and what is live
belongs to open scopes. -/
theorem Sound.of_heap {σ τ : Store} (h : σ.Sound) (hs : τ.scopes = σ.scopes)
    (hw : τ.heap.WellFormed)
    (hkeep : ∀ p s bytes, σ.Bound p → σ.block? p = some ⟨.owned s, bytes⟩ →
      ∃ bytes', τ.block? p = some ⟨.owned s, bytes'⟩)
    (hnew : ∀ p b, τ.block? p = some b → σ.Open b.owner.scope) : τ.Sound := by
  refine ⟨hw, by rw [hs]; exact h.nonempty, by rw [hs]; exact h.ids, by rw [hs]; exact h.below,
    by rw [hs]; exact h.ordered, ?_, by rw [hs]; exact h.apart, ?_⟩
  · rw [hs]
    intro c hc n v hn
    obtain ⟨hsize, bytes, hb⟩ := h.owned c hc n v hn
    exact ⟨hsize, hkeep _ _ _ ⟨v, ⟨c, hc, n, hn⟩, rfl⟩ hb⟩
  · intro p b hb
    have := hnew p b hb
    unfold Open at *
    rwa [hs]

theorem Sound.puts {σ τ : Store} {p : Pointer} {b : Option Block} (h : σ.Sound)
    (hp : σ.Puts τ p b) (hopen : ∀ b', b = some b' → σ.Open b'.owner.scope)
    (hbound : σ.Bound p → ∃ b₀ b', σ.block? p = some b₀ ∧ b = some b' ∧ b'.owner = b₀.owner) :
    τ.Sound := by
  refine h.of_heap hp.scopes hp.heap (fun q s bytes hq hb => ?_) fun q b' hb => ?_
  · by_cases hqp : q = p
    · subst hqp
      obtain ⟨b₀, ⟨o, bytes'⟩, hb₀, rfl, ho⟩ := hbound hq
      rw [hb, Option.some.injEq] at hb₀
      subst hb₀
      obtain rfl : o = .owned s := ho
      exact ⟨bytes', hp.self⟩
    · exact ⟨bytes, by rw [hp.other hqp, hb]⟩
  · by_cases hqp : q = p
    · subst hqp
      exact hopen b' (hp.self ▸ hb)
    · rw [hp.other hqp] at hb
      exact h.housed q b' hb

/-! ## Frames -/

namespace Frame

variable {P Q : Pointer → Prop} {σ τ υ : Store}

theorem refl (hP : ∀ p, P p → σ.Live p) : Frame P σ σ :=
  ⟨fun p hp => by
    obtain ⟨b, hb⟩ := hP p hp
    exact ⟨b, b, hb, hb, rfl, .inr rfl⟩, fun _ _ h => h⟩

theorem mono (h : Frame P σ τ) (hQ : ∀ p, Q p → P p) : Frame Q σ τ :=
  ⟨fun p hp => h.blocks p (hQ p hp), fun p hp => h.bound p (hQ p hp)⟩

theorem live (h : Frame P σ τ) {p : Pointer} (hp : P p) : τ.Live p := by
  obtain ⟨b, b', -, hb', -⟩ := h.blocks p hp
  exact ⟨b', hb'⟩

theorem trans (h₁ : Frame P σ τ) (h₂ : Frame P τ υ) : Frame P σ υ := by
  refine ⟨fun p hp => ?_, fun p hp hb => h₁.bound p hp (h₂.bound p hp hb)⟩
  obtain ⟨b₁, b₂, hb₁, hb₂, ho, hby⟩ := h₁.blocks p hp
  obtain ⟨c₂, b₃, hc₂, hb₃, ho', hby'⟩ := h₂.blocks p hp
  rw [hb₂, Option.some.injEq] at hc₂
  subst hc₂
  refine ⟨b₁, b₃, hb₁, hb₃, ho'.trans ho, ?_⟩
  rcases hby with hbound | hby
  · exact .inl hbound
  · rcases hby' with hbound | hby'
    · exact .inl (h₁.bound p hp hbound)
    · exact .inr (hby'.trans hby)

theorem puts {p : Pointer} {b : Option Block} (hP : ∀ q, P q → σ.Live q) (hp : σ.Puts τ p b)
    (hn : P p → σ.Bound p ∧ ∃ b₀ b', σ.block? p = some b₀ ∧ b = some b' ∧ b'.owner = b₀.owner) :
    Frame P σ τ := by
  refine ⟨fun q hq => ?_, fun q _ hbound => ?_⟩
  · by_cases hqp : q = p
    · subst hqp
      obtain ⟨hbound, b₀, b', hb₀, rfl, ho⟩ := hn hq
      exact ⟨b₀, b', hb₀, hp.self, ho, .inl hbound⟩
    · obtain ⟨b₀, hb₀⟩ := hP q hq
      exact ⟨b₀, b₀, hb₀, by rw [hp.other hqp, hb₀], rfl, .inr rfl⟩
  · unfold Bound Binds at *
    rwa [hp.scopes] at hbound

/-- Only the heap changes, and not for ranges in `P`. -/
theorem of_heap (hs : τ.scopes = σ.scopes) (hP : ∀ p, P p → σ.Live p)
    (hb : ∀ p, P p → τ.block? p = σ.block? p) : Frame P σ τ := by
  refine ⟨fun p hp => ?_, fun p _ hbound => ?_⟩
  · obtain ⟨b, hσ⟩ := hP p hp
    exact ⟨b, b, hσ, by rw [hb p hp, hσ], rfl, .inr rfl⟩
  · unfold Bound Binds at *
    rwa [hs] at hbound

end Frame

end Store

end HeapWalk
