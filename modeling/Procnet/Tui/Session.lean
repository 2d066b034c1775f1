import Procnet.Lib.Trace
import Procnet.Tui.Keys

/-!
# A session of the client

The loop of `procnet/src/main.rs`: it takes the snapshots that have arrived, unless the feed is
paused, draws a frame, and waits for a key; a key can have the frame drawn once more. So a frame is
drawn before every key, but the key is handled without the snapshot, by what the frame has left in
the state.

`session_safe` is about all sessions: no access by index is out of range, after a frame the state
agrees with the list shown, and the cursor never leaves the view or the window.
-/

namespace Procnet

open Lib

/-- Where the loop is. -/
inductive LoopPhase where
  /-- It takes the snapshots that have arrived. -/
  | draining : LoopPhase
  /-- It has drawn a frame, and waits for a key. -/
  | waiting : LoopPhase
  /-- It is to draw the frame once more. -/
  | redrawing : LoopPhase
  /-- It has been left. -/
  | quit : LoopPhase
  | panicked : LoopPhase
  deriving DecidableEq, Repr

/-- The client, with the snapshot it shows. -/
structure Session where
  snap : SnapshotData
  state : TuiState
  phase : LoopPhase
  deriving DecidableEq, Repr

/-- What can happen next. -/
inductive SessionStep where
  /-- A snapshot has arrived. -/
  | recv (snap : SnapshotData) : SessionStep
  /-- A frame is drawn, with some height left for the table. -/
  | draw (height : ℕ) : SessionStep
  /-- A key is pressed, or the time is up. -/
  | event (key : Option KeyEvent) : SessionStep
  /-- The loop is left with an error: the daemon has hung up, or the terminal fails. -/
  | fail : SessionStep
  deriving DecidableEq, Repr

namespace Session

/-- The client when its loop begins. -/
def new : Session := ⟨⟨0, 0, [], []⟩, .new, .draining⟩

/-- Draws a frame. -/
def draw (c : Session) (height : ℕ) (phase : LoopPhase) : Session :=
  match render c.snap height c.state with
  | some (state, _) => { c with state, phase }
  | none => { c with phase := .panicked }

/-- One step of the loop. -/
def step (c : Session) : SessionStep → Option Session
  | .recv snap =>
    if c.phase ≠ .draining then none
    else if c.state.paused then some c
    else some { c with snap }
  | .draw height =>
    match c.phase with
    | .draining => some (c.draw height .waiting)
    | .redrawing => some (c.draw height .draining)
    | _ => none
  | .event key =>
    if c.phase ≠ .waiting then none
    else
      match key with
      | none => some { c with phase := .draining }
      | some key =>
        match handleKey c.state key with
        | none => some { c with phase := .panicked }
        | some ⟨state, action, _⟩ =>
          match action with
          | .quit => some { c with state, phase := .quit }
          | .redraw => some { c with state, phase := .redrawing }
          | .none => some { c with state, phase := .draining }
  | .fail => if c.phase = .quit ∨ c.phase = .panicked then none else some { c with phase := .quit }

variable {c c' : Session} {l : SessionStep}

/-- Nothing is out of range so far, and the state is as it should be between two frames. -/
def Sound (c : Session) : Prop := c.phase ≠ .panicked ∧ c.state.Good

/-- **Drawing a frame** leaves what the frame shows. -/
theorem draw_spec (h : c.state.Good) (height : ℕ) (phase : LoopPhase) (hp : phase ≠ .panicked) :
    (c.draw height phase).Sound ∧
      Shows (c.draw height phase).snap c.state.selectedPid (c.draw height phase).state := by
  obtain ⟨state, frame, hrender, hshows, hgood⟩ := render_spec h.picker c.snap height
  rw [draw, hrender]
  exact ⟨⟨hp, hgood⟩, hshows⟩

/-- **What one step of the loop can do.** -/
theorem step_cases (h : c.step l = some c') :
    (∃ snap, l = .recv snap ∧ (c' = c ∨ c' = { c with snap })) ∨
    (∃ height phase, l = .draw height ∧ phase ≠ .panicked ∧ c' = c.draw height phase) ∨
    (∃ key handled phase, l = .event (some key) ∧ handleKey c.state key = some handled ∧
      phase ≠ .panicked ∧ c' = { c with state := handled.state, phase }) ∨
    (∃ key, l = .event (some key) ∧ handleKey c.state key = none ∧
      c' = { c with phase := .panicked }) ∨
    ∃ phase, (l = .event none ∨ l = .fail) ∧ phase ≠ .panicked ∧ c' = { c with phase } := by
  cases l with
  | recv snap =>
    simp only [step] at h
    split at h
    · cases h
    · -- While it is paused, the client drops the snapshots it receives.
      split at h
      · exact Or.inl ⟨snap, rfl, Or.inl (Option.some.inj h).symm⟩
      · exact Or.inl ⟨snap, rfl, Or.inr (Option.some.inj h).symm⟩
  | draw height =>
    -- A frame is drawn before a key is waited for, and after one.
    simp only [step] at h
    split at h
    case h_1 => exact Or.inr (Or.inl ⟨height, .waiting, rfl, by simp, (Option.some.inj h).symm⟩)
    case h_2 => exact Or.inr (Or.inl ⟨height, .draining, rfl, by simp, (Option.some.inj h).symm⟩)
    case h_3 => cases h
  | event key =>
    simp only [step] at h
    split at h
    · cases h
    · cases key with
      | none =>
        refine Or.inr (Or.inr (Or.inr (Or.inr ⟨.draining, Or.inl rfl, by simp, ?_⟩)))
        exact (Option.some.inj h).symm
      | some key =>
        rcases hhandled : handleKey c.state key with _ | ⟨state, action, sent⟩
        · simp only [hhandled] at h
          refine Or.inr (Or.inr (Or.inr (Or.inl ⟨key, rfl, hhandled, ?_⟩)))
          exact (Option.some.inj h).symm
        · simp only [hhandled] at h
          obtain ⟨phase, hphase, hc'⟩ : ∃ phase, phase ≠ .panicked ∧
              c' = { c with state, phase } := by
            cases action <;> exact ⟨_, by simp, (Option.some.inj h).symm⟩
          exact Or.inr (Or.inr (Or.inl ⟨key, _, phase, rfl, hhandled, hphase, hc'⟩))
  | fail =>
    simp only [step] at h
    split at h
    · cases h
    · refine Or.inr (Or.inr (Or.inr (Or.inr ⟨.quit, Or.inr rfl, by simp, ?_⟩)))
      exact (Option.some.inj h).symm

theorem eq_draw_of_step {height : ℕ} (h : c.step (.draw height) = some c') :
    ∃ phase, phase ≠ .panicked ∧ c' = c.draw height phase := by
  rcases step_cases h with ⟨_, hl, -⟩ | ⟨height', phase, hl, hphase, hc'⟩ | ⟨_, _, _, hl, -⟩ |
    ⟨_, hl, -⟩ | ⟨_, hl | hl, -⟩
  · cases hl
  · cases hl
    exact ⟨phase, hphase, hc'⟩
  · cases hl
  · cases hl
  · cases hl
  · cases hl

theorem sound_step (hc : c.Sound) (h : c.step l = some c') : c'.Sound := by
  obtain ⟨hpanicked, hgood⟩ := hc
  rcases step_cases h with ⟨_, -, rfl | rfl⟩ | ⟨height, phase, -, hphase, rfl⟩ |
    ⟨key, handled, phase, -, hhandled, hphase, rfl⟩ | ⟨key, -, hnone, rfl⟩ | ⟨phase, -, hphase, rfl⟩
  · exact ⟨hpanicked, hgood⟩
  · exact ⟨hpanicked, hgood⟩
  · exact (draw_spec hgood height phase hphase).1
  · obtain ⟨handled', hhandled', hgood'⟩ := handleKey_spec hgood key
    obtain rfl := Option.some.inj (hhandled'.symm.trans hhandled)
    exact ⟨hphase, hgood'⟩
  · obtain ⟨handled, hhandled, -⟩ := handleKey_spec hgood key
    rw [hnone] at hhandled
    cases hhandled
  · exact ⟨hphase, hgood⟩

end Session

/-- **The screen is safe over whole sessions**: whatever snapshots arrive, keys are pressed and
heights the table has, no access by index is out of range; the cursors stay in range, and the
cursor in the window; and every frame leaves the state as it shows the list. -/
theorem session_safe {ls : List SessionStep} {c : Session}
    (h : exec Session.step .new ls = some c) :
    c.phase ≠ .panicked ∧ c.state.Good ∧
      ∀ height c', c.step (.draw height) = some c' →
        Shows c'.snap c.state.selectedPid c'.state ∧ c'.state.Good := by
  have hsound : c.Sound := exec_invariant (I := Session.Sound)
    (fun _ _ _ hc hstep => Session.sound_step hc hstep) ⟨by decide, TuiState.good_new⟩ h
  refine ⟨hsound.1, hsound.2, fun height c' hdraw => ?_⟩
  obtain ⟨phase, hphase, rfl⟩ := Session.eq_draw_of_step hdraw
  obtain ⟨⟨-, hgood⟩, hshows⟩ := Session.draw_spec hsound.2 height phase hphase
  exact ⟨hshows, hgood⟩

/-- A row of a process that has sent some bytes. -/
def quietRow (pid : UInt32) (name : String) (sent : UInt64) : StatsRow :=
  ⟨pid, name, ⟨⟨sent, 0⟩, default⟩, default, default, default⟩

/-- The cursor is moved onto the second row, and stays on its process when the rows are sorted the
other way. -/
def sortingSession : List SessionStep :=
  [.recv ⟨1000, 1, [quietRow 7 "curl" 5, quietRow 9 "ssh" 3, quietRow 8 "dig" 4], []⟩,
    .draw 5, .event (some ⟨.char 'j', false⟩), .draw 5,
    .draw 5, .event (some ⟨.char 'r', false⟩), .draw 5]

theorem session_safe_sorting :
    ∃ c, exec Session.step .new sortingSession = some c ∧ c.state.selectedPid = some 8 ∧
      c.state.viewPids = [7, 8, 9] ∧ c.state.selected = 1 ∧
      (c.phase ≠ .panicked ∧ c.state.Good ∧
        ∀ height c', c.step (.draw height) = some c' →
          Shows c'.snap c.state.selectedPid c'.state ∧ c'.state.Good) := by
  obtain ⟨c, hc, hp⟩ := exists_exec_of_any Session.step .new sortingSession
    (fun c => c.state.selectedPid = some 8 ∧ c.state.viewPids = [7, 8, 9] ∧ c.state.selected = 1)
    (by decide +kernel)
  obtain ⟨hpid, hpids, hselected⟩ := of_decide_eq_true hp
  exact ⟨c, hc, hpid, hpids, hselected, session_safe hc⟩

end Procnet
