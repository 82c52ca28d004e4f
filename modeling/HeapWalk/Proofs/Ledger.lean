import HeapWalk.Proofs.Timeline

/-!
# Histories under any sequence of calls

A `History.Call` pushes a snapshot or moves the cursor. Whatever calls a history gets, in whatever
order, it holds those of the pushed snapshots that fitted when their turn came
(`Snapshot.fitting`), what it counts as used is what they take, and its cursor stands on one of
them, if there are any (`History.Balanced`). In such a history a push is refused exactly if it
would break the limit, and steps forward and backward undo each other (`History.Reliable`).
-/

set_option autoImplicit false

namespace HeapWalk

namespace Snapshot

/-- Of snapshots offered one after the other, those that fit into `room` bytes beside the earlier
ones that did. -/
def fitting (room : Nat) : List Snapshot → List Snapshot
  | [] => []
  | s :: rest => if s.size ≤ room then s :: fitting (room - s.size) rest else fitting room rest

theorem totalSize_fitting_le (room : Nat) (l : List Snapshot) :
    totalSize (fitting room l) ≤ room := by
  induction l generalizing room with
  | nil => exact Nat.zero_le room
  | cons s l ih =>
    rw [fitting]
    split
    · have := ih (room - s.size)
      rw [totalSize]
      omega
    · exact ih room

/-- The snapshot offered last is judged by what the earlier ones that fitted take. -/
theorem fitting_concat (room : Nat) (l : List Snapshot) (s : Snapshot) :
    fitting room (l ++ [s]) = fitting room l ++
      if totalSize (fitting room l) + s.size ≤ room then [s] else [] := by
  induction l generalizing room with
  | nil => simp [fitting, totalSize]
  | cons t l ih =>
    rw [List.cons_append, fitting, fitting]
    by_cases ht : t.size ≤ room
    · have hroom : totalSize (fitting (room - t.size) l) + s.size ≤ room - t.size ↔
          t.size + totalSize (fitting (room - t.size) l) + s.size ≤ room := by omega
      rw [if_pos ht, if_pos ht, ih, List.cons_append, totalSize]
      simp only [hroom]
    · rw [if_neg ht, if_neg ht, ih]

end Snapshot

namespace History

inductive Call where
  | push (s : Snapshot)
  | stepForward
  | stepBackward
  | rewind
  | jumpToEnd

/-- The snapshots that a call offers to the history. -/
def Call.offers : Call → List Snapshot
  | .push s => [s]
  | _ => []

/-- The history after a call; a refused snapshot changes nothing. -/
def after (h : History) : Call → History
  | .push s => (h.push s).toOption.getD h
  | .stepForward => h.stepForward.2
  | .stepBackward => h.stepBackward.2
  | .rewind => h.rewind
  | .jumpToEnd => h.jumpToEnd

/-- The history after the calls, the first one first. -/
def afterAll (h : History) (calls : List Call) : History := calls.foldl after h

variable {h : History} {limit : Nat} {s : Snapshot}

/-! ## One call -/

theorem after_push_of_fits (hf : h.used + s.size ≤ h.limit) :
    h.after (.push s) = { h with used := h.used + s.size, snapshots := h.snapshots.push s } := by
  rw [after, push_eq_ok.2 ⟨hf, rfl⟩]
  rfl

theorem push_of_exceeds (hx : h.limit < h.used + s.size) :
    h.push s = .error ⟨h.used, s.size, h.limit⟩ := by
  unfold push
  exact if_pos hx

theorem after_push_of_exceeds (hx : h.limit < h.used + s.size) : h.after (.push s) = h := by
  rw [after, push_of_exceeds hx]
  rfl

theorem position_after_push (s : Snapshot) : (h.after (.push s)).position = h.position := by
  by_cases hf : h.used + s.size ≤ h.limit
  · rw [after_push_of_fits hf]
  · rw [after_push_of_exceeds (Nat.not_le.1 hf)]

/-- All that a move of the cursor changes is the cursor, which it leaves in place or puts on a
snapshot (on the first place, if there is none). -/
structure Moved (h h' : History) : Prop where
  eq : h' = { h with position := h'.position }
  cursor : h'.position = h.position ∨ h'.position < max h.length 1

theorem Moved.snapshots_eq {h h' : History} (hm : h.Moved h') : h'.snapshots = h.snapshots := by
  rw [hm.eq]

theorem Moved.length_eq {h h' : History} (hm : h.Moved h') : h'.length = h.length :=
  congrArg Array.size hm.snapshots_eq

theorem stepForward_of_lt (hlt : h.position + 1 < h.length) :
    h.stepForward = (true, { h with position := h.position + 1 }) := by
  unfold stepForward canStepForward
  exact if_pos (decide_eq_true hlt)

theorem stepForward_of_le (hle : h.length ≤ h.position + 1) : h.stepForward = (false, h) := by
  unfold stepForward canStepForward
  exact if_neg fun hlt => Nat.not_lt.2 hle (of_decide_eq_true hlt)

theorem moved_stepForward (h : History) : h.Moved h.stepForward.2 := by
  rcases Nat.lt_or_ge (h.position + 1) h.length with hlt | hle
  · rw [stepForward_of_lt hlt]
    exact ⟨rfl, .inr (Nat.lt_of_lt_of_le hlt (Nat.le_max_left _ _))⟩
  · rw [stepForward_of_le hle]
    exact ⟨rfl, .inl rfl⟩

theorem moved_stepBackward (h : History) (hc : h.position < max h.length 1) :
    h.Moved h.stepBackward.2 := by
  unfold stepBackward
  split
  · exact ⟨rfl, .inr (by simp only; omega)⟩
  · exact ⟨rfl, .inl rfl⟩

theorem moved_rewind (h : History) : h.Moved h.rewind :=
  ⟨rfl, .inr (by simp only [rewind]; omega)⟩

theorem moved_jumpToEnd (h : History) : h.Moved h.jumpToEnd :=
  ⟨rfl, .inr (by simp only [jumpToEnd]; omega)⟩

/-! ## Books -/

/-- The history was offered the snapshots `offered`, in this order, under `limit`. -/
structure Balanced (h : History) (limit : Nat) (offered : List Snapshot) : Prop where
  limit_eq : h.limit = limit
  /-- It holds those that fitted, as they were, in the order of the offers. -/
  kept : h.snapshots.toList = Snapshot.fitting limit offered
  used_eq : h.used = Snapshot.totalSize h.snapshots.toList
  /-- The cursor stands on a snapshot, or on the first place if there is none. -/
  cursor : h.position < max h.length 1

theorem balanced_empty (limit : Nat) : (empty limit).Balanced limit [] where
  limit_eq := rfl
  kept := rfl
  used_eq := rfl
  cursor := Nat.zero_lt_one

namespace Balanced

variable {offered : List Snapshot} (hb : h.Balanced limit offered)
include hb

theorem within : h.used ≤ limit := by
  rw [hb.used_eq, hb.kept]
  exact Snapshot.totalSize_fitting_le limit offered

theorem moved {h' : History} (hm : h.Moved h') : h'.Balanced limit offered := by
  have hcursor : h'.position < max h'.length 1 := by
    rw [hm.length_eq]
    rcases hm.cursor with heq | hlt
    · exact heq ▸ hb.cursor
    · exact hlt
  refine ⟨?_, hm.snapshots_eq ▸ hb.kept, ?_, hcursor⟩
  · rw [hm.eq]
    exact hb.limit_eq
  · rw [hm.snapshots_eq, hm.eq]
    exact hb.used_eq

theorem push (s : Snapshot) : (h.after (.push s)).Balanced limit (offered ++ [s]) := by
  have hsize : Snapshot.totalSize (Snapshot.fitting limit offered) = h.used := by
    rw [hb.used_eq, hb.kept]
  have hcursor := hb.cursor
  by_cases hf : h.used + s.size ≤ h.limit
  · rw [after_push_of_fits hf]
    refine ⟨hb.limit_eq, ?_, ?_, ?_⟩
    · rw [Snapshot.fitting_concat, hsize, if_pos (hb.limit_eq ▸ hf), Array.toList_push, hb.kept]
    · rw [Array.toList_push, Snapshot.totalSize_append, ← hb.used_eq]
      rfl
    · simp only [length, Array.size_push] at hcursor ⊢
      omega
  · rw [after_push_of_exceeds (Nat.not_le.1 hf)]
    refine ⟨hb.limit_eq, ?_, hb.used_eq, hcursor⟩
    rw [Snapshot.fitting_concat, hsize, if_neg (hb.limit_eq ▸ hf), List.append_nil, hb.kept]

theorem after (call : Call) : (h.after call).Balanced limit (offered ++ call.offers) := by
  cases call with
  | push s => exact hb.push s
  | stepForward => exact (List.append_nil offered).symm ▸ hb.moved h.moved_stepForward
  | stepBackward => exact (List.append_nil offered).symm ▸ hb.moved (h.moved_stepBackward hb.cursor)
  | rewind => exact (List.append_nil offered).symm ▸ hb.moved h.moved_rewind
  | jumpToEnd => exact (List.append_nil offered).symm ▸ hb.moved h.moved_jumpToEnd

theorem afterAll (calls : List Call) :
    (h.afterAll calls).Balanced limit (offered ++ calls.flatMap Call.offers) := by
  induction calls generalizing h offered with
  | nil => exact (List.append_nil offered).symm ▸ hb
  | cons call rest ih =>
    rw [List.flatMap_cons, ← List.append_assoc]
    exact ih (hb.after call)

theorem current?_eq_none : h.current? = none ↔ h.isEmpty = true := by
  have hcursor := hb.cursor
  simp only [current?, get?, isEmpty, length, Array.isEmpty_iff_size_eq_zero,
    Array.getElem?_eq_none_iff] at hcursor ⊢
  omega

end Balanced

/-! ## What a history answers -/

/-- What the calls of a history in order do to it. -/
structure Reliable (h : History) : Prop where
  refused : ∀ s, (∃ r, h.push s = .error r) ↔
    h.limit < Snapshot.totalSize h.snapshots.toList + s.size
  unchanged : ∀ s r, h.push s = .error r → h.after (.push s) = h
  accepted : ∀ s h', h.push s = .ok h' →
    h.after (.push s) = h' ∧ h'.snapshots.toList = h.snapshots.toList ++ [s]
  /-- A push leaves the cursor where it is. -/
  still : ∀ s, (h.after (.push s)).position = h.position
  /-- No later call takes a snapshot away, moves it or changes it. -/
  lasting : ∀ calls, h.snapshots.toList <+: (h.afterAll calls).snapshots.toList
  forthAndBack : h.stepForward.1 = true → h.stepForward.2.stepBackward = (true, h)
  backAndForth : h.stepBackward.1 = true → h.stepBackward.2.stepForward = (true, h)

theorem stepBackward_stepForward (hm : h.stepForward.1 = true) :
    h.stepForward.2.stepBackward = (true, h) := by
  rcases Nat.lt_or_ge (h.position + 1) h.length with hlt | hle
  · rw [stepForward_of_lt hlt]
    rfl
  · rw [stepForward_of_le hle] at hm
    cases hm

theorem stepForward_stepBackward (hc : h.position < max h.length 1)
    (hm : h.stepBackward.1 = true) : h.stepBackward.2.stepForward = (true, h) := by
  unfold stepBackward at hm ⊢
  split at hm
  · rename_i hpos
    have hback : h.position - 1 + 1 = h.position := Nat.sub_add_cancel hpos
    have hlt : h.position - 1 + 1 < h.length := by omega
    rw [if_pos hpos, stepForward_of_lt hlt, hback]
  · cases hm

theorem snapshots_prefix_after (h : History) (call : Call) (hc : h.position < max h.length 1) :
    h.snapshots.toList <+: (h.after call).snapshots.toList := by
  have hmoved : ∀ {h'}, h.Moved h' → h.snapshots.toList <+: h'.snapshots.toList :=
    fun hm => hm.snapshots_eq ▸ List.prefix_rfl
  cases call with
  | push s =>
    by_cases hf : h.used + s.size ≤ h.limit
    · rw [after_push_of_fits hf, Array.toList_push]
      exact List.prefix_append _ _
    · exact (after_push_of_exceeds (Nat.not_le.1 hf)).symm ▸ List.prefix_rfl
  | stepForward => exact hmoved h.moved_stepForward
  | stepBackward => exact hmoved (h.moved_stepBackward hc)
  | rewind => exact hmoved h.moved_rewind
  | jumpToEnd => exact hmoved h.moved_jumpToEnd

theorem Balanced.snapshots_prefix_afterAll {offered : List Snapshot}
    (hb : h.Balanced limit offered) (calls : List Call) :
    h.snapshots.toList <+: (h.afterAll calls).snapshots.toList := by
  induction calls generalizing h offered with
  | nil => exact List.prefix_rfl
  | cons call rest ih =>
    exact (h.snapshots_prefix_after call hb.cursor).trans (ih (hb.after call))

theorem Balanced.reliable {offered : List Snapshot} (hb : h.Balanced limit offered) :
    h.Reliable where
  refused s := by
    rw [← hb.used_eq]
    exact ⟨fun ⟨_, hr⟩ => push_eq_error hr, fun hx => ⟨_, push_of_exceeds hx⟩⟩
  unchanged s r hr := after_push_of_exceeds (push_eq_error hr)
  accepted s h' hp := by
    obtain ⟨hf, rfl⟩ := push_eq_ok.1 hp
    exact ⟨after_push_of_fits hf, Array.toList_push⟩
  still := position_after_push
  lasting := hb.snapshots_prefix_afterAll
  forthAndBack := stepBackward_stepForward
  backAndForth := stepForward_stepBackward hb.cursor

/-! ## Main result -/

/-- Whatever calls a new history gets, and in whatever order, its books balance, what is used stays
within the limit, the cursor is on the first place while it is empty and on a snapshot from then
on, and its next answers are those of a history in order. -/
theorem books_balance_after_calls (limit : Nat) (calls : List Call) :
    let h := (empty limit).afterAll calls
    h.Balanced limit (calls.flatMap Call.offers) ∧ h.used ≤ limit ∧
      (if h.isEmpty then h.position = 0 else h.position < h.length) ∧
      (h.current? = none ↔ h.isEmpty = true) ∧ h.Reliable := by
  intro h
  have hb : h.Balanced limit (calls.flatMap Call.offers) := (balanced_empty limit).afterAll calls
  refine ⟨hb, hb.within, ?_, hb.current?_eq_none, hb.reliable⟩
  have hcursor := hb.cursor
  simp only [isEmpty, length, Array.isEmpty_iff_size_eq_zero] at hcursor ⊢
  split <;> omega

end History

end HeapWalk
