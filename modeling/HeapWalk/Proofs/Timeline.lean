import HeapWalk.Proofs.Invariance
import HeapWalk.Proofs.Transparency

/-!
# The history of a run

A run that records leaves a history that begins with the initial state, whose outputs grow, whose
snapshots can be read, and whose bookkeeping adds up (`History.Chronicle`). That is an invariant of
evaluation (`Machine.Recording`), for each snapshot is taken of a sound machine in which no return
value is pending. Only the state in which a fault arose is recorded apart, when evaluation is over.
-/

set_option autoImplicit false

namespace HeapWalk

/-- No context carries a return value. -/
def ScopeStack.Returnless (s : ScopeStack) : Prop := ∀ c ∈ s.contexts, c.returnValue = none

/-! ## Snapshots -/

namespace Snapshot

/-- All bindings can be read under their types, and no return value is pending. -/
structure Faithful (s : Snapshot) : Prop where
  readable : ∀ c ∈ s.scopes.contexts, ∀ n v, (n, v) ∈ c.locals →
    ∃ value, s.heap.readValue v.pointer v.type = .ok value ∧ value.type = v.type
  returnless : s.scopes.Returnless

/-- The estimated sizes of snapshots, taken together. -/
def totalSize : List Snapshot → Nat
  | [] => 0
  | s :: rest => s.size + totalSize rest

theorem totalSize_append (l l' : List Snapshot) :
    totalSize (l ++ l') = totalSize l + totalSize l' := by
  induction l with
  | nil => simp [totalSize]
  | cons s l ih => simp [totalSize, ih, Nat.add_assoc]

theorem size_le_totalSize {s : Snapshot} {l : List Snapshot} (h : s ∈ l) :
    s.size ≤ totalSize l := by
  induction l with
  | nil => cases h
  | cons t l ih =>
    rcases List.mem_cons.1 h with rfl | h
    · exact Nat.le_add_right _ _
    · exact Nat.le_trans (ih h) (Nat.le_add_left _ _)

theorem faithful_of_sound {m : Machine} (hs : m.store.Sound) (hr : m.scopes.Returnless)
    (faulted : Bool) : (m.snapshot faulted).Faithful := by
  refine ⟨fun c hc n v hn => ?_, hr⟩
  obtain ⟨hsize, bytes, hb⟩ := hs.owned c hc n v ((hs.ordered c hc).get?_eq_some.2 hn)
  have hlen : v.type.size ≤ bytes.length :=
    Nat.le_of_eq (by rw [hs.heap.length_bytes hb, hsize])
  obtain ⟨value, hdec⟩ := Value.decode_isSome hlen
  exact ⟨value, (hs.heap.readValue_eq hb v.type).trans (by rw [hdec]), Value.type_of_decode hdec⟩

end Snapshot

/-! ## Histories -/

namespace History

/-- The history tells of a run that began with `start` and has printed `output` by now. -/
structure Chronicle (h : History) (start : Snapshot) (limit : Nat) (output : Output) : Prop where
  first : h.snapshots.toList.head? = some start
  faithful : ∀ s ∈ h.snapshots.toList, s.Faithful
  ordered : h.snapshots.toList.Pairwise fun s t => s.output.toList <+: t.output.toList
  past : ∀ s ∈ h.snapshots.toList, s.output.toList <+: output.toList
  limit_eq : h.limit = limit
  used_eq : h.used = Snapshot.totalSize h.snapshots.toList
  within : h.used ≤ limit

theorem push_eq_ok {h h' : History} {s : Snapshot} :
    h.push s = .ok h' ↔ h.used + s.size ≤ h.limit ∧
      h' = { h with used := h.used + s.size, snapshots := h.snapshots.push s } := by
  unfold push
  split
  · simp only [reduceCtorEq, false_iff, not_and]
    omega
  · simp only [Except.ok.injEq, eq_comm]
    exact ⟨fun heq => ⟨by omega, heq⟩, And.right⟩

variable {h h' : History} {start s : Snapshot} {limit : Nat} {output output' : Output}

theorem chronicle_of_first (hs : start.Faithful) (hp : (empty limit).push start = .ok h) :
    h.Chronicle start limit start.output := by
  obtain ⟨hfits, rfl⟩ := push_eq_ok.1 hp
  have hmem : ∀ s ∈ [start], s = start := fun s hs => List.mem_singleton.1 hs
  refine ⟨rfl, fun s h => hmem s h ▸ hs, List.pairwise_singleton _ _, fun s h => ?_, rfl, ?_, hfits⟩
  · exact hmem s h ▸ List.prefix_rfl
  · exact Nat.add_comm _ _

theorem Chronicle.push (hc : h.Chronicle start limit output) (hs : s.Faithful)
    (ho : s.output = output) (hp : h.push s = .ok h') : h'.Chronicle start limit output := by
  obtain ⟨hfits, rfl⟩ := push_eq_ok.1 hp
  have hmem : ∀ t ∈ (h.snapshots.push s).toList, t ∈ h.snapshots.toList ∨ t = s := by simp
  refine ⟨?_, fun t ht => ?_, ?_, fun t ht => ?_, hc.limit_eq, ?_, ?_⟩
  · rw [Array.toList_push, List.head?_append, hc.first]
    rfl
  · rcases hmem t ht with ht | rfl
    · exact hc.faithful t ht
    · exact hs
  · rw [Array.toList_push, List.pairwise_append]
    refine ⟨hc.ordered, List.pairwise_singleton _ _, fun t ht u hu => ?_⟩
    obtain rfl := List.mem_singleton.1 hu
    exact ho ▸ hc.past t ht
  · rcases hmem t ht with ht | rfl
    · exact hc.past t ht
    · exact ho ▸ List.prefix_rfl
  · simp [Snapshot.totalSize_append, Snapshot.totalSize, hc.used_eq]
  · exact hc.limit_eq ▸ hfits

theorem Chronicle.head?_eq (hc : h.Chronicle start limit output) :
    h.snapshots.toList.head? = if start.size ≤ limit then some start else none := by
  have hstart : start.size ≤ limit := by
    refine Nat.le_trans (Snapshot.size_le_totalSize (List.mem_of_mem_head? hc.first)) ?_
    exact hc.used_eq ▸ hc.within
  rw [if_pos hstart, hc.first]

theorem Chronicle.printed (hc : h.Chronicle start limit output)
    (ho : output.toList <+: output'.toList) : h.Chronicle start limit output' :=
  ⟨hc.first, hc.faithful, hc.ordered, fun s hs => (hc.past s hs).trans ho, hc.limit_eq,
    hc.used_eq, hc.within⟩

end History

/-! ## Recording machines -/

namespace Machine

/-- The machine records and has a history of its run so far; no return value is pending. -/
structure Recording (start : Snapshot) (limit : Nat) (m : Machine) : Prop where
  record : m.config.record = true
  chronicle : m.history.Chronicle start limit m.output
  unfaulted : ∀ s ∈ m.history.snapshots.toList, s.faulted = false
  returnless : m.scopes.Returnless

theorem invariant_recording (start : Snapshot) (limit : Nat) :
    Invariant (Recording start limit) where
  aside _ _ _ _ h := ⟨h.record, h.chronicle, h.unfaulted, h.returnless⟩
  printed l h := by
    refine ⟨h.record, h.chronicle.printed ?_, h.unfaulted, h.returnless⟩
    rw [Array.toList_push]
    exact List.prefix_append _ _
  named hc _ hr h := by
    refine ⟨h.record, h.chronicle, h.unfaulted, fun d hd => ?_⟩
    rcases List.mem_cons.1 hd with rfl | hd
    · exact hr.trans (h.returnless _ (hc ▸ List.mem_cons_self))
    · exact h.returnless d (hc ▸ List.mem_cons_of_mem _ hd)
  pushed _ h := by
    refine ⟨h.record, h.chronicle, h.unfaulted, fun d hd => ?_⟩
    rcases List.mem_cons.1 hd with rfl | hd
    · rfl
    · exact h.returnless d hd
  popped h :=
    ⟨h.record, h.chronicle, h.unfaulted, fun d hd => h.returnless d (List.mem_of_mem_tail hd)⟩
  recorded hs hp h := by
    refine ⟨h.record, h.chronicle.push (Snapshot.faithful_of_sound hs h.returnless false) rfl hp,
      fun s hs => ?_, h.returnless⟩
    obtain ⟨-, rfl⟩ := History.push_eq_ok.1 hp
    rw [Array.toList_push, List.mem_append, List.mem_singleton] at hs
    rcases hs with hs | rfl
    · exact h.unfaulted s hs
    · rfl

variable {start : Snapshot} {limit : Nat} {m : Machine}

theorem Near.chronicle (h : Near (Recording start limit) m) :
    m.history.Chronicle start limit m.output ∧
      ∀ s ∈ m.history.snapshots.toList, s.faulted = false := by
  rcases h with h | ⟨_, _, _, h⟩
  · exact ⟨h.chronicle, h.unfaulted⟩
  · exact ⟨h.chronicle, h.unfaulted⟩

/-! ## Runs -/

/-- The history that a run from `start` leaves under a limit, if it is stopped by `fault`, or comes
to its end. -/
structure Timeline (start : Snapshot) (limit : Nat) (fault : Option Fault) (m : Machine) :
    Prop where
  first : m.history.snapshots.toList.head? = if start.size ≤ limit then some start else none
  /-- What a snapshot has printed, a later one has printed first. -/
  ordered : m.history.snapshots.toList.Pairwise fun s t => s.output.toList <+: t.output.toList
  faithful : ∀ s ∈ m.history.snapshots.toList, s.Faithful
  used_eq : m.history.used = Snapshot.totalSize m.history.snapshots.toList
  within : m.history.used ≤ limit
  /-- Only the last snapshot may be faulted. -/
  unfaulted : ∀ s ∈ m.history.snapshots.toList.dropLast, s.faulted = false
  /-- It shows the state in which the fault arose. -/
  shows : ∀ s ∈ m.history.snapshots.toList, s.faulted = true →
    s = { heap := m.heap, scopes := m.scopes, output := m.output, line := m.line, faulted := true }
  /-- There is one if the fault is no refused snapshot, and its state fitted beside the others. -/
  faulted : (∃ s ∈ m.history.snapshots.toList, s.faulted = true) ↔
    ∃ e ∈ fault, e.code ≠ .snapshotLimitExceeded ∧
      Snapshot.totalSize (m.history.snapshots.toList.filter fun s => !s.faulted) +
        Snapshot.size ⟨m.heap, m.scopes, m.output, m.line, true⟩ ≤ limit

theorem timeline_of_chronicle (h : m.history.Chronicle start limit m.output)
    (hu : ∀ s ∈ m.history.snapshots.toList, s.faulted = false) {fault : Option Fault}
    (hfault : ∀ e ∈ fault, e.code ≠ .snapshotLimitExceeded →
      limit < m.history.used + (m.snapshot true).size) : Timeline start limit fault m := by
  have hfilter : (m.history.snapshots.toList.filter fun s => !s.faulted) =
      m.history.snapshots.toList :=
    List.filter_eq_self.2 fun s hs => by rw [hu s hs]; rfl
  have hnone : ∀ s ∈ m.history.snapshots.toList, s.faulted ≠ true := by
    intro s hs
    rw [hu s hs]
    nofun
  refine ⟨h.head?_eq, h.ordered, h.faithful, h.used_eq, h.within,
    fun s hs => hu s (List.dropLast_subset _ hs), fun s hs hf => absurd hf (hnone s hs), ?_⟩
  rw [hfilter, ← h.used_eq]
  constructor
  · rintro ⟨s, hs, hf⟩
    exact absurd hf (hnone s hs)
  · rintro ⟨e, he, hcode, hfits⟩
    exact absurd (hfault e he hcode) (Nat.not_lt.2 hfits)

/-- The history in which the initial state did not fit. -/
theorem timeline_of_empty (h : m.history = .empty limit) (hstart : limit < start.size)
    {fault : Option Fault} (hcode : ∀ e ∈ fault, e.code = .snapshotLimitExceeded) :
    Timeline start limit fault m := by
  constructor
  all_goals rw [h]
  · exact (if_neg (Nat.not_le.2 hstart)).symm
  · exact List.Pairwise.nil
  · nofun
  · rfl
  · exact Nat.zero_le limit
  · nofun
  · nofun
  · exact ⟨nofun, fun ⟨e, he, hne, _⟩ => absurd (hcode e he) hne⟩

/-- The history with the state of a fault behind the others. -/
theorem timeline_of_fault (h : m.history.Chronicle start limit m.output)
    (hu : ∀ s ∈ m.history.snapshots.toList, s.faulted = false) {history : History}
    (hf : (m.snapshot true).Faithful) (hp : m.history.push (m.snapshot true) = .ok history)
    {e : Fault} (he : e.code ≠ .snapshotLimitExceeded) :
    Timeline start limit (some e) { m with history } := by
  have hc := h.push hf rfl hp
  obtain ⟨hfits, rfl⟩ := History.push_eq_ok.1 hp
  have hfilter : ((m.history.snapshots.toList ++ [m.snapshot true]).filter fun s => !s.faulted) =
      m.history.snapshots.toList := by
    rw [List.filter_append, List.filter_eq_self.2 fun s hs => by rw [hu s hs]; rfl]
    exact List.append_nil _
  refine ⟨hc.head?_eq, hc.ordered, hc.faithful, hc.used_eq, hc.within, fun s hs => ?_,
    fun s hs hs' => ?_, ⟨fun _ => ⟨e, rfl, he, ?_⟩, fun _ => ⟨m.snapshot true, ?_, rfl⟩⟩⟩
  · rw [Array.toList_push, List.dropLast_concat] at hs
    exact hu s hs
  · rw [Array.toList_push, List.mem_append, List.mem_singleton] at hs
    rcases hs with hs | rfl
    · rw [hu s hs] at hs'
      cases hs'
    · rfl
  · rw [Array.toList_push, hfilter, ← h.used_eq, ← h.limit_eq]
    exact hfits
  · rw [Array.toList_push]
    exact List.mem_append_right _ List.mem_cons_self

theorem timeline_recordFault {e : Fault} (h : Exec.Stopped (Recording start limit) (some e) m)
    (hs : m.store.Sound) : Timeline start limit (some e) (Exec.recordFault m) := by
  obtain ⟨⟨hrecord, hc, hu, hr⟩, hrefused⟩ := h
  unfold Exec.recordFault
  rw [if_pos hrecord]
  split
  · rename_i history hp
    have hfits := (History.push_eq_ok.1 hp).1
    -- a refused state is refused once more
    refine timeline_of_fault hc hu (Snapshot.faithful_of_sound hs hr true) hp fun hcode => ?_
    exact absurd (hrefused e rfl hcode) (Nat.not_lt.2 hfits)
  · rename_i hp
    refine timeline_of_chronicle hc hu fun _ _ _ => ?_
    exact hc.limit_eq ▸ History.push_eq_error hp

end Machine

namespace Exec

open Machine

variable {m : Machine}

theorem spec_finish {start : Snapshot} {limit : Nat} (h : Timeline start limit none m)
    {E : Option Fault → Machine → Prop} :
    Spec finish m (fun _ => True) E fun _ => Timeline start limit none := by
  unfold finish
  refine Spec.bind (Spec.update trivial (Spec.bind (Spec.view ?_)))
  exact Spec.note (fun _ => trivial) fun _ =>
    ⟨h.first, h.ordered, h.faithful, h.used_eq, h.within, h.unfaulted, h.shows, h.faulted⟩

/-- The program, after the initial state was recorded. -/
theorem spec_program {start : Snapshot} {limit : Nat} (hs : m.store.Sound)
    (h : Recording start limit m) (fuel : Nat) (ss : List Stmt) :
    Spec (recordingFault (execList fuel ss)) m (fun _ => True)
      (fun e => Timeline start limit e) fun _ => Timeline start limit none := by
  have hruns : Runs (fun _ => False) (execList fuel ss) m _ :=
    (contract fuel).list hs fun _ h => h.elim
  have hupheld := ((invariant_recording start limit).evaluation fuel).list ss m h fun m' hp =>
    (hruns.passes m' hp).sound
  have hquiet : ∀ {m'}, m'.history.Chronicle start limit m'.output →
      (∀ s ∈ m'.history.snapshots.toList, s.faulted = false) → Timeline start limit none m' :=
    fun hc hu => timeline_of_chronicle hc hu nofun
  refine ((hupheld.and hruns).mono (fun _ _ => trivial) (fun _ _ h => h) ?_).recordingFault
    (fun e m₁ h₁ => ⟨trivial, timeline_recordFault h₁.1 h₁.2.2.sound⟩) fun m₁ h₁ => ?_
  · intro _ m₁ h₁
    exact hquiet h₁.1.near.chronicle.1 h₁.1.near.chronicle.2
  · exact hquiet h₁.1.holds.chronicle h₁.1.holds.unfaulted

theorem spec_run (program : Program) (config : Config) (limit fuel : Nat) :
    let m := Machine.initial program (config.recorded limit)
    Spec (run fuel) m (fun _ => True) (fun e => Timeline (m.snapshot false) limit e)
      fun _ => Timeline (m.snapshot false) limit none := by
  intro m
  have hsound : m.store.Sound := sound_initial program _
  have hreturnless : m.scopes.Returnless := by
    intro c hc
    obtain rfl := List.mem_singleton.1 hc
    rfl
  unfold run
  refine Spec.bind (Spec.note (fun _ => trivial) fun j => Spec.bind ?_)
  refine Spec.takeSnapshot nofun (fun history hp _ => ⟨trivial, ?_⟩) fun r hp => ?_
  · have hfaithful := Snapshot.faithful_of_sound hsound hreturnless false
    have hunfaulted : ∀ s ∈ history.snapshots.toList, s.faulted = false := by
      obtain ⟨-, rfl⟩ := History.push_eq_ok.1 hp
      intro s hs
      obtain rfl := List.mem_singleton.1 hs
      rfl
    have hrecording : Recording (m.snapshot false) limit { m with journal := j, history } :=
      ⟨rfl, History.chronicle_of_first hfaithful hp, hunfaulted, hreturnless⟩
    refine Spec.bind (Spec.view (Spec.bind ?_))
    exact (spec_program (m := { m with journal := j, history }) hsound hrecording fuel program).mono
      (fun _ h => h) (fun _ _ h => h) fun _ _ h => spec_finish h
  · have hlimit := History.push_eq_error hp
    rw [show History.used _ = 0 from rfl, Nat.zero_add] at hlimit
    refine timeline_of_empty rfl hlimit ?_
    rintro _ ⟨⟩
    rfl

end Exec

/-! ## Main result -/

/-- However a recording run ends, it leaves a faithful timeline: the initial state first, if the
limit admits it, outputs that grow, snapshots that can be read, sizes that add up to what is used
and stay within the limit, and the state of the fault last, if there was one and it fitted. -/
theorem timeline_of_run (program : Program) (config : Config) (limit fuel : Nat) :
    let m := Machine.initial program (config.recorded limit)
    (Exec.run fuel m).state.Timeline
      { heap := m.heap, scopes := m.scopes, output := m.output, line := m.line, faulted := false }
      limit (Exec.run fuel m).fault? := by
  intro m
  have h := Exec.spec_run program config limit fuel
  cases ho : Exec.run fuel m with
  | done _ m' => exact h.done _ m' ho
  | fault e m' => exact h.fault e m' ho
  | exhausted m' => exact h.exhausted m' ho

end HeapWalk
