import Procnet.Tui.Cursor
import Procnet.Tui.Session

/-!
# When the cursor lets go of a process

The cursor is locked onto a pid by moving it, and `render_table` of `procnet/src/tui/view.rs` says
that a pid that has vanished releases the lock, so that the cursor returns to the top instead of
snapping to a stranger. So it does in the branch that draws rows. A frame without rows, since the
list is empty or nothing in it passes the filter, returns before it gets there, and leaves the lock
as it is: when rows come back, the cursor is on whichever of them has the pid by then.

`Session.Releases` is what a frame without the locked pid should do, with all that can follow until
the cursor is moved again. `vanished_released_iff` says of whole sessions that all their frames do
so exactly if none of them is empty while a pid is locked; in `reusedSession` one is, and the cursor
is then on a process that has only just started.
-/

namespace Procnet

open Lib

/-! ### Frames and the lock -/

namespace TuiState

variable {s : TuiState} {height : ℕ} {view : List ℕ} {pids : List UInt32}

/-- **A frame locks the cursor onto nothing**, and leaves a free one at the top. -/
theorem drawn_of_none (height : ℕ) (hlen : pids.length = view.length)
    (hnone : s.selectedPid = none) :
    (s.drawn height view pids).selectedPid = none ∧
      (view ≠ [] → (s.drawn height view pids).selected = 0) := by
  rcases eq_or_ne view [] with rfl | hview
  · exact ⟨hnone, fun h => absurd rfl h⟩
  · obtain ⟨scrollOffset, hdrawn, -⟩ := drawn_of_ne_nil s height hview hlen
    rw [hdrawn, hnone]
    exact ⟨rfl, fun _ => rfl⟩

/-- **What a frame without the locked pid does**: it releases the lock exactly if it has rows. -/
theorem released_drawn_iff (hlen : pids.length = view.length) {pid : UInt32}
    (hlocked : s.selectedPid = some pid) (hgone : pid ∉ pids) :
    (s.drawn height view pids).selectedPid = none ↔ pids ≠ [] := by
  rcases eq_or_ne view [] with rfl | hview
  · -- The frame returns early.
    have hempty : pids = [] := List.length_eq_zero_iff.mp hlen
    have hkept : (s.drawn height [] pids).selectedPid = some pid := hlocked
    rw [hkept]
    exact iff_of_false (by simp) fun h => h hempty
  · obtain ⟨scrollOffset, hdrawn, -⟩ := drawn_of_ne_nil s height hview hlen
    have hnone : pids.findIdx? (· = pid) = none := by
      rw [List.findIdx?_eq_none_iff]
      rintro x hx
      refine decide_eq_false ?_
      rintro rfl
      exact hgone hx
    have hne : pids ≠ [] := by
      rintro rfl
      exact hview (List.length_eq_zero_iff.mp hlen.symm)
    rw [hdrawn, hlocked]
    refine iff_of_true ?_ hne
    show (resolveCursor (some pid) pids).2 = none
    rw [resolveCursor, Option.bind_some, hnone]
    rfl

end TuiState

/-! ### Keys and the lock -/

/-- An action that locks the cursor onto nothing it is not locked onto already. -/
def LocksNothing (s : TuiState) (r : Option Handled) : Prop :=
  ∀ handled, r = some handled → s.selectedPid = none → handled.state.selectedPid = none

variable {s s' : TuiState}

theorem locksNothing_of_eq {action : Action} {sent : Option DaemonCommand}
    (h : s'.selectedPid = s.selectedPid ∨ s'.selectedPid = none) :
    LocksNothing s (some ⟨s', action, sent⟩) := by
  rintro handled heq hnone
  obtain rfl := Option.some.inj heq
  exact h.elim (fun hsame => hsame.trans hnone) id

theorem locksNothing_done {action : Action} (h : s'.selectedPid = s.selectedPid) :
    LocksNothing s (done s' action) :=
  locksNothing_of_eq (Or.inl h)

theorem locksNothing_applySort (s : TuiState) (key : SortKey) :
    LocksNothing s (applySort s key) := by
  unfold applySort
  split
  · exact locksNothing_done rfl
  · exact locksNothing_done rfl

theorem locksNothing_sortKeys (s : TuiState) : ∀ kb ∈ SORT_KEYS, LocksNothing s (kb.action s) := by
  simp only [SORT_KEYS, List.forall_mem_cons]
  exact ⟨locksNothing_done rfl, locksNothing_applySort s .pid, locksNothing_applySort s .name,
    locksNothing_applySort s .sent, locksNothing_applySort s .recv,
    locksNothing_applySort s .total, by simp⟩

theorem locksNothing_mainKeys (s : TuiState) : ∀ kb ∈ MAIN_KEYS, LocksNothing s (kb.action s) := by
  simp only [MAIN_KEYS, List.forall_mem_cons]
  refine ⟨locksNothing_of_eq (Or.inl rfl), locksNothing_of_eq (Or.inl rfl), locksNothing_done rfl,
    locksNothing_done rfl, ?_, locksNothing_done rfl, locksNothing_done rfl, locksNothing_done rfl,
    ?_, by simp⟩
  · -- The other table starts with a free cursor.
    exact locksNothing_of_eq (Or.inr rfl)
  · show LocksNothing s (if s.filterText.isEmpty then _ else _)
    split
    · exact locksNothing_done rfl
    · exact locksNothing_done rfl

theorem locksNothing_unitPickerKeys (s : TuiState) :
    ∀ kb ∈ UNIT_PICKER_KEYS, LocksNothing s (kb.action s) := by
  simp only [UNIT_PICKER_KEYS, List.forall_mem_cons]
  refine ⟨?_, locksNothing_done rfl, by simp⟩
  intro handled heq hnone
  obtain ⟨unit, -, hdone⟩ := Option.bind_eq_some_iff.mp heq
  obtain rfl := Option.some.inj hdone
  exact hnone

/-- Outside the table the arrow keys do not move its cursor. -/
theorem locksNothing_navigationKeys (hpane : s.activePane ≠ .main) :
    ∀ kb ∈ NAVIGATION_KEYS, LocksNothing s (kb.action s) := by
  have hmove : ∀ isUp, LocksNothing s (moveCursor s isUp) := by
    intro isUp
    unfold moveCursor
    split
    case h_1 hmain => exact absurd hmain hpane
    case h_2 => exact locksNothing_done rfl
    case h_3 => exact locksNothing_done rfl
  simp only [NAVIGATION_KEYS, List.forall_mem_cons]
  exact ⟨hmove true, hmove false, hmove true, hmove false, by simp⟩

theorem locksNothing_otherKeys (s : TuiState) :
    ∀ kb ∈ QUIT_KEYS ++ HELP_KEYS ++ FILTER_KEYS, LocksNothing s (kb.action s) := by
  simp only [QUIT_KEYS, HELP_KEYS, FILTER_KEYS, List.cons_append, List.nil_append,
    List.forall_mem_cons]
  exact ⟨locksNothing_done rfl, locksNothing_done rfl, locksNothing_done rfl,
    locksNothing_done rfl, locksNothing_done rfl, locksNothing_done rfl, locksNothing_done rfl,
    locksNothing_done rfl, by simp⟩

/-- A key that moves the cursor of the table. -/
def TuiState.MovedBy (s : TuiState) (key : KeyEvent) : Prop :=
  s.activePane = .main ∧ NAVIGATION_KEYS.any (·.applies key)

/-- **Only the arrow keys lock the cursor.** -/
theorem locksNothing_handleKey {key : KeyEvent} (h : ¬ s.MovedBy key) :
    LocksNothing s (handleKey s key) := by
  rcases handleKey_cases s key with hkey | hkey | ⟨kb, hmem, happlies, hkey⟩
  · rw [hkey]
    obtain ⟨code, control⟩ := key
    cases code <;> exact locksNothing_done rfl
  · rw [hkey]
    exact locksNothing_done rfl
  · rw [hkey]
    rcases mem_keybinds hmem with hmem | hmem | hmem | hmem | hmem
    · exact locksNothing_sortKeys s kb hmem
    · refine locksNothing_navigationKeys (fun hpane => h ⟨hpane, ?_⟩) kb hmem
      exact List.any_eq_true.mpr ⟨kb, hmem, happlies⟩
    · exact locksNothing_mainKeys s kb hmem
    · exact locksNothing_unitPickerKeys s kb hmem
    · exact locksNothing_otherKeys s kb hmem

/-! ### Sessions -/

namespace Session

variable {c c' : Session} {l : SessionStep}

/-- The user moves the cursor of the table. -/
def MovesCursor (c : Session) : SessionStep → Prop
  | .event (some key) => c.state.MovedBy key
  | .event none | .recv _ | .draw _ | .fail => False

/-- A step that draws no empty frame while a pid is locked: some entry of the list shown passes the
filter. -/
def Filled (c : Session) : SessionStep → Prop
  | .draw _ => c.state.selectedPid = none ∨ passingPids c.snap c.state ≠ []
  | .event _ | .recv _ | .fail => True

instance decidableFilled (c : Session) : ∀ l, Decidable (Filled c l)
  | .draw _ =>
    inferInstanceAs (Decidable (c.state.selectedPid = none ∨ passingPids c.snap c.state ≠ []))
  | .event _ | .recv _ | .fail => isTrue trivial

/-- **The cursor is free** until the user moves it: no frame locks it onto a pid or places it
anywhere but at the top. -/
def Free (c : Session) : Prop :=
  ∀ ms c', Meets step (fun c l => ¬ MovesCursor c l) c ms → exec step c ms = some c' →
    c'.state.selectedPid = none ∧
      ∀ height c'', c'.step (.draw height) = some c'' →
        c''.state.selectedPid = none ∧ (c''.state.view ≠ [] → c''.state.selected = 0)

/-- **A frame lets go of a pid** that it does not show: from then on the cursor is free. -/
def Releases (c c' : Session) : Prop :=
  ∀ pid, c.state.selectedPid = some pid → pid ∉ c'.state.viewPids → c'.Free

/-- What drawing a frame does to the state. -/
theorem exists_draw (c : Session) (height : ℕ) (phase : LoopPhase) :
    ∃ view pids, pids.length = view.length ∧ pids.Perm (passingPids c.snap c.state) ∧
      c.draw height phase = { c with state := c.state.drawn height view pids, phase } := by
  obtain ⟨view, pids, frame, -, hlen, hperm, hrender⟩ := render_eq_drawn c.snap height c.state
  exact ⟨view, pids, hlen, hperm, by rw [draw, hrender]⟩

/-- The step lemma: a cursor that is locked onto nothing stays so, unless the user moves it. -/
theorem selectedPid_step (hnone : c.state.selectedPid = none) (hl : ¬ MovesCursor c l)
    (h : c.step l = some c') : c'.state.selectedPid = none := by
  rcases step_cases h with ⟨_, -, rfl | rfl⟩ | ⟨height, phase, -, -, rfl⟩ |
    ⟨key, handled, phase, rfl, hhandled, -, rfl⟩ | ⟨_, -, -, rfl⟩ | ⟨_, -, -, rfl⟩
  · exact hnone
  · exact hnone
  · obtain ⟨view, pids, hlen, -, hdraw⟩ := exists_draw c height phase
    rw [hdraw]
    exact (TuiState.drawn_of_none height hlen hnone).1
  · exact locksNothing_handleKey hl handled hhandled hnone
  · exact hnone
  · exact hnone

/-- The run lemma: **a cursor that is locked onto nothing is free.** -/
theorem free_iff : c.Free ↔ c.state.selectedPid = none := by
  constructor
  · intro h
    exact (h [] c trivial rfl).1
  · intro hnone ms c' hms hrun
    have hnone' : c'.state.selectedPid = none :=
      exec_invariant_of_meets (I := fun c => c.state.selectedPid = none)
        (fun _ _ _ hl hc hs => selectedPid_step hc hl hs) hms hnone hrun
    refine ⟨hnone', fun height c'' hdraw => ?_⟩
    obtain ⟨phase, -, rfl⟩ := eq_draw_of_step hdraw
    obtain ⟨view, pids, hlen, -, hstate⟩ := exists_draw c' height phase
    rw [hstate]
    have hdrawn := TuiState.drawn_of_none height hlen hnone'
    refine ⟨hdrawn.1, fun hview => hdrawn.2 ?_⟩
    rwa [TuiState.view_drawn] at hview

/-- **One frame**: it lets go of a pid that it does not show exactly if it has rows. -/
theorem releases_iff {height : ℕ} (h : c.step (.draw height) = some c') :
    Releases c c' ↔ Filled c (.draw height) := by
  obtain ⟨phase, -, rfl⟩ := eq_draw_of_step h
  obtain ⟨view, pids, hlen, hperm, hdraw⟩ := exists_draw c height phase
  have hpids : (c.draw height phase).state.viewPids = pids := by
    rw [hdraw]
    exact TuiState.viewPids_drawn hlen
  have hempty : pids ≠ [] ↔ passingPids c.snap c.state ≠ [] := not_congr (by
    rw [← List.length_eq_zero_iff, ← List.length_eq_zero_iff, hperm.length_eq])
  unfold Releases Filled
  rw [hpids, free_iff, hdraw, ← hempty]
  cases hlocked : c.state.selectedPid with
  | none => exact iff_of_true (by simp) (Or.inl rfl)
  | some pid =>
    constructor
    · intro hreleases
      refine Or.inr ?_
      rintro rfl
      have hreleased := hreleases pid rfl List.not_mem_nil
      exact (TuiState.released_drawn_iff hlen hlocked List.not_mem_nil).mp hreleased rfl
    · rintro (hno | hne) pid' hpid' hgone
      · cases hno
      · obtain rfl := Option.some.inj hpid'
        exact (TuiState.released_drawn_iff hlen hlocked hgone).mpr hne

end Session

/-- **When a vanished process releases the cursor**, over whole sessions: every frame lets go of a
locked pid that it does not show, and it stays so until the user moves the cursor, exactly if no
frame is drawn empty while a pid is locked. -/
theorem vanished_released_iff {c₀ c : Session} {ls : List SessionStep}
    (h : exec Session.step c₀ ls = some c) :
    (∀ ls₁ height ls₂ c₁ c₂, ls = ls₁ ++ .draw height :: ls₂ →
      exec Session.step c₀ ls₁ = some c₁ → c₁.step (.draw height) = some c₂ →
      c₁.Releases c₂) ↔ Meets Session.step Session.Filled c₀ ls := by
  rw [meets_iff_forall_step]
  constructor
  · rintro hall ls₁ l ls₂ c₁ rfl hc₁
    cases l with
    | draw height =>
      -- The frame was drawn: the run went on from there.
      obtain ⟨c₂, hc₂, -⟩ := exec_cons_eq_some.mp (exec_drop hc₁ h)
      exact (Session.releases_iff hc₂).mp (hall ls₁ height ls₂ c₁ c₂ rfl hc₁ hc₂)
    | recv snap => trivial
    | event key => trivial
    | fail => trivial
  · rintro hmeets ls₁ height ls₂ c₁ c₂ hsplit hc₁ hc₂
    exact (Session.releases_iff hc₂).mpr (hmeets ls₁ (.draw height) ls₂ c₁ hsplit hc₁)

/-- A locked process vanishes from a list that has other rows. -/
def vanishingSession : List SessionStep :=
  [.recv ⟨1000, 1, [quietRow 7 "curl" 5, quietRow 9 "ssh" 3], []⟩, .draw 10,
    .event (some ⟨.char 'j', false⟩), .draw 10, .draw 10, .event none,
    .recv ⟨1000, 2, [quietRow 9 "ssh" 3], []⟩, .draw 10]

theorem vanished_released_one_left :
    ∃ c₁ c₂, exec Session.step .new (vanishingSession.take 7) = some c₁ ∧
      c₁.state.selectedPid = some 7 ∧ c₁.step (.draw 10) = some c₂ ∧
      c₂.state.viewPids = [9] ∧ c₂.Free := by
  obtain ⟨c₂, hc₂, hp₂⟩ := exists_exec_of_any Session.step .new vanishingSession
    (fun c => c.state.viewPids = [9]) (by decide +kernel)
  obtain ⟨c₁, hc₁, hp₁⟩ := exists_exec_of_any Session.step .new (vanishingSession.take 7)
    (fun c => c.state.selectedPid = some 7) (by decide +kernel)
  have hlocked := of_decide_eq_true hp₁
  have hpids := of_decide_eq_true hp₂
  have hdraw : c₁.step (.draw 10) = some c₂ :=
    (exec_singleton ..).symm.trans (exec_drop hc₁ hc₂)
  have hreleases := (vanished_released_iff hc₂).mpr (by decide +kernel) (vanishingSession.take 7)
    10 [] c₁ c₂ rfl hc₁ hdraw
  refine ⟨c₁, c₂, hc₁, hlocked, hdraw, hpids, hreleases 7 hlocked ?_⟩
  rw [hpids]
  decide

/-- The locked process vanishes with all the others, and its pid is reused. -/
def reusedSession : List SessionStep :=
  [.recv ⟨1000, 1, [quietRow 7 "curl" 5, quietRow 9 "ssh" 3], []⟩, .draw 10,
    .event (some ⟨.char 'j', false⟩), .draw 10, .draw 10, .event none,
    .recv ⟨1000, 2, [], []⟩, .draw 10, .event none,
    .recv ⟨1000, 3, [quietRow 7 "cat" 0, quietRow 9 "ssh" 3], []⟩, .draw 10]

/-- **A process that has only just started is selected**: the frame without rows keeps the locked
pid, and two steps later the cursor is on the process that has it by then, which no key has moved
it onto. -/
theorem reused_pid_selected :
    ∃ c₁ c₂ c₃, exec Session.step .new (reusedSession.take 7) = some c₁ ∧
      c₁.state.selectedPid = some 7 ∧ c₁.step (.draw 10) = some c₂ ∧ c₂.state.viewPids = [] ∧
      ¬ c₁.Releases c₂ ∧
      Meets Session.step (fun c l => ¬ c.MovesCursor l) c₂ (reusedSession.drop 8) ∧
      exec Session.step c₂ (reusedSession.drop 8) = some c₃ ∧
      c₃.state.selectedPid = some 7 ∧ c₃.state.viewPids = [9, 7] ∧ c₃.state.selected = 1 := by
  obtain ⟨c₁, hc₁, hp₁⟩ := exists_exec_of_any Session.step .new (reusedSession.take 7)
    (fun c => c.state.selectedPid = some 7) (by decide +kernel)
  obtain ⟨c₂, hc₂, hp₂⟩ := exists_exec_of_any Session.step .new (reusedSession.take 8)
    (fun c => c.state.viewPids = []) (by decide +kernel)
  obtain ⟨c₃, hc₃, hp₃⟩ := exists_exec_of_any Session.step .new reusedSession
    (fun c => c.state.selectedPid = some 7 ∧ c.state.viewPids = [9, 7] ∧ c.state.selected = 1)
    (by decide +kernel)
  have hlocked := of_decide_eq_true hp₁
  have hempty := of_decide_eq_true hp₂
  obtain ⟨hlocked₃, hpids₃, hselected₃⟩ := of_decide_eq_true hp₃
  have hdraw : c₁.step (.draw 10) = some c₂ :=
    (exec_singleton ..).symm.trans (exec_drop hc₁ hc₂)
  have hrest : exec Session.step c₂ (reusedSession.drop 8) = some c₃ :=
    exec_drop hc₂ hc₃
  have hmoves : Meets Session.step (fun c l => ¬ c.MovesCursor l) c₂ (reusedSession.drop 8) :=
    meets_of_forall_mem (fun l hl c => by
      simp only [reusedSession, List.drop_succ_cons, List.drop_zero, List.mem_cons] at hl
      rcases hl with rfl | rfl | rfl | hl
      · exact id
      · exact id
      · exact id
      · exact absurd hl List.not_mem_nil) c₂
  refine ⟨c₁, c₂, c₃, hc₁, hlocked, hdraw, hempty, fun hreleases => ?_, hmoves, hrest, hlocked₃,
    hpids₃, hselected₃⟩
  have hfree := hreleases 7 hlocked (by rw [hempty]; decide)
  have hnone := (hfree _ c₃ hmoves hrest).1
  rw [hlocked₃] at hnone
  exact absurd hnone (by simp)

end Procnet
