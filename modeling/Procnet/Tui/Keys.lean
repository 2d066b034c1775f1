import Procnet.Tui.View

/-!
# Handling a key

The key bindings of `procnet/src/tui/keys.rs` and their dispatch in `procnet/src/tui/input.rs`. A
pane has groups of bindings, and the first one that matches a key is carried out; the prompt of
the filter takes all keys for itself. An action can panic, where it reads a table by the cursor of
the picker: none does in a state that is `TuiState.Good`, and all of them lead to such a state
(`handleKey_spec`).
-/

namespace Procnet

/-- A key that activates a binding. -/
inductive KeySpec where
  | chars (chars : String) : KeySpec
  | ctrl (c : Char) : KeySpec
  | up : KeySpec
  | down : KeySpec
  | enter : KeySpec
  | esc : KeySpec
  | backspace : KeySpec
  | tab : KeySpec
  deriving DecidableEq, Repr

/-- The key that has been pressed. -/
inductive KeyCode where
  | char (c : Char) : KeyCode
  | up : KeyCode
  | down : KeyCode
  | enter : KeyCode
  | esc : KeyCode
  | backspace : KeyCode
  | tab : KeyCode
  /-- Any other key. -/
  | other : KeyCode
  deriving DecidableEq, Repr

structure KeyEvent where
  code : KeyCode
  /-- Whether the control key is held. -/
  control : Bool
  deriving DecidableEq, Repr

/-- What handling a key does: the new state, what the loop is to do, and a command for the
daemon. -/
structure Handled where
  state : TuiState
  action : Action
  sent : Option DaemonCommand
  deriving DecidableEq, Repr

/-- A binding; its action may panic. -/
structure Keybind where
  key : KeySpec
  action : TuiState → Option Handled

/-- Handling a key without a command for the daemon. -/
def done (s : TuiState) (action : Action) : Option Handled := some ⟨s, action, none⟩

/-! ### Actions -/

def applySort (s : TuiState) (key : SortKey) : Option Handled :=
  if s.sortKey = key then done { s with sortDir := s.sortDir.toggle } .redraw
  else done { s with sortKey := key, sortDir := key.defaultDirection } .redraw

/-- Moves the cursor up or down within the active pane. -/
def moveCursor (s : TuiState) (isUp : Bool) : Option Handled :=
  match s.activePane with
  | .main =>
    let viewLen := s.view.length
    if viewLen = 0 then done s .none
    else
      let next := if isUp then s.selected - 1 else min (s.selected + 1) (viewLen - 1)
      let (selected, scrollOffset) := clampScroll next s.scrollOffset s.visibleRows viewLen
      done { s with selected, scrollOffset, selectedPid := s.viewPids[selected]? } .redraw
  | .unit =>
    let len := DisplayUnit.ALL.length
    let unitPickerCursor :=
      if isUp then s.unitPickerCursor - 1 else min (s.unitPickerCursor + 1) (len - 1)
    done { s with unitPickerCursor } .redraw
  | _ => done s .none

/-! ### Bindings -/

def QUIT_KEYS : List Keybind :=
  [⟨.chars "q", fun s => done s .quit⟩, ⟨.ctrl 'c', fun s => done s .quit⟩]

def MAIN_KEYS : List Keybind :=
  [⟨.chars "+", fun s => some ⟨s, .none, some .intervalIncrease⟩⟩,
    ⟨.chars "-", fun s => some ⟨s, .none, some .intervalDecrease⟩⟩,
    ⟨.chars "p", fun s => done { s with paused := !s.paused } .redraw⟩,
    ⟨.chars "d", fun s => done { s with showDetail := !s.showDetail } .redraw⟩,
    ⟨.chars "x", fun s =>
      done { s with viewMode := s.viewMode.toggle, selectedPid := none, selected := 0,
                    scrollOffset := 0 } .redraw⟩,
    ⟨.chars "u", fun s =>
      done { s with activePane := .unit, unitPickerCursor := s.unit.index } .redraw⟩,
    ⟨.chars "/", fun s => done { s with activePane := .filter } .redraw⟩,
    ⟨.chars "?h", fun s => done { s with activePane := .help } .redraw⟩,
    ⟨.esc, fun s =>
      if s.filterText.isEmpty then done s .none else done { s with filterText := "" } .redraw⟩]

def UNIT_PICKER_KEYS : List Keybind :=
  [⟨.enter, fun s =>
      DisplayUnit.ALL[s.unitPickerCursor]?.bind fun unit =>
        done { s with unit, activePane := .main } .redraw⟩,
    ⟨.esc, fun s => done { s with activePane := .main } .redraw⟩]

def SORT_KEYS : List Keybind :=
  [⟨.chars "r", fun s => done { s with sortDir := s.sortDir.toggle } .redraw⟩,
    ⟨.chars "1", fun s => applySort s .pid⟩,
    ⟨.chars "2", fun s => applySort s .name⟩,
    ⟨.chars "3", fun s => applySort s .sent⟩,
    ⟨.chars "4", fun s => applySort s .recv⟩,
    ⟨.chars "5", fun s => applySort s .total⟩]

def NAVIGATION_KEYS : List Keybind :=
  [⟨.up, fun s => moveCursor s true⟩,
    ⟨.down, fun s => moveCursor s false⟩,
    ⟨.chars "k", fun s => moveCursor s true⟩,
    ⟨.chars "j", fun s => moveCursor s false⟩]

/-- These are only shown: the prompt of the filter handles its keys itself. -/
def FILTER_KEYS : List Keybind :=
  [⟨.enter, fun s => done s .none⟩,
    ⟨.tab, fun s => done s .none⟩,
    ⟨.esc, fun s => done s .none⟩,
    ⟨.backspace, fun s => done s .none⟩,
    ⟨.chars "?", fun s => done s .none⟩]

def HELP_KEYS : List Keybind :=
  [⟨.esc, fun s => done { s with activePane := .main } .redraw⟩]

/-- The bindings of a pane, group by group. -/
def Pane.keybinds : Pane → List (List Keybind)
  | .main => [SORT_KEYS, NAVIGATION_KEYS, MAIN_KEYS, QUIT_KEYS]
  | .unit => [UNIT_PICKER_KEYS, NAVIGATION_KEYS, QUIT_KEYS]
  | .help => [HELP_KEYS, QUIT_KEYS]
  | .filter => [FILTER_KEYS]

/-! ### Dispatch -/

def keyMatches (spec : KeySpec) (code : KeyCode) : Bool :=
  match spec, code with
  | .chars chars, .char c => c.toLower ∈ chars.toList
  | .ctrl c, .char ch => c = ch.toLower
  | .up, .up | .down, .down | .enter, .enter | .esc, .esc | .backspace, .backspace | .tab, .tab =>
    true
  | _, _ => false

/-- A binding with the control key is passed over when it is not held. -/
def Keybind.applies (kb : Keybind) (key : KeyEvent) : Bool :=
  match kb.key with
  | .ctrl _ => key.control && keyMatches kb.key key.code
  | _ => keyMatches kb.key key.code

def handleFilterInput (s : TuiState) (key : KeyEvent) : Option Handled :=
  match key.code with
  | .char c => done { s with filterText := s.filterText.push c } .redraw
  | .backspace =>
    done { s with filterText := String.ofList s.filterText.toList.dropLast } .redraw
  | .tab => done { s with filterTarget := s.filterTarget.toggle } .redraw
  | .esc => done { s with activePane := .main, filterText := "" } .redraw
  | .enter => done { s with activePane := .main } .redraw
  | _ => done s .none

def handleKey (s : TuiState) (key : KeyEvent) : Option Handled :=
  if s.activePane = .filter then handleFilterInput s key
  else
    match s.activePane.keybinds.flatten.find? (·.applies key) with
    | some kb => kb.action s
    | none => done s .none

/-- **What handling a key can be**: input for the filter, nothing, or the action of a binding of the
active pane. -/
theorem handleKey_cases (s : TuiState) (key : KeyEvent) :
    handleKey s key = handleFilterInput s key ∨ handleKey s key = done s .none ∨
      ∃ kb ∈ s.activePane.keybinds.flatten, kb.applies key = true ∧
        handleKey s key = kb.action s := by
  unfold handleKey
  split
  · exact Or.inl rfl
  · split
    case h_1 kb hfind =>
      have happlies := List.find?_some hfind
      exact Or.inr (Or.inr ⟨kb, List.mem_of_find?_eq_some hfind, happlies, rfl⟩)
    case h_2 => exact Or.inr (Or.inl rfl)

/-- The bindings of a pane come from these tables. -/
theorem mem_keybinds {pane : Pane} {kb : Keybind} (h : kb ∈ pane.keybinds.flatten) :
    kb ∈ SORT_KEYS ∨ kb ∈ NAVIGATION_KEYS ∨ kb ∈ MAIN_KEYS ∨ kb ∈ UNIT_PICKER_KEYS ∨
      kb ∈ QUIT_KEYS ++ HELP_KEYS ++ FILTER_KEYS := by
  cases pane <;>
  · simp only [Pane.keybinds, List.flatten_cons, List.flatten_nil, List.append_nil,
      List.mem_append] at h ⊢
    tauto

/-! ### Every action keeps the state good -/

/-- An action that does not panic, and keeps what holds between two frames. -/
def Keeps (s : TuiState) (r : Option Handled) : Prop :=
  s.Good → ∃ handled, r = some handled ∧ handled.state.Good

namespace TuiState

/-- The cursors, the view and the window. -/
def cursors (s : TuiState) : ℕ × List ℕ × List UInt32 × Option UInt32 × ℕ × ℕ × ℕ :=
  (s.unitPickerCursor, s.view, s.viewPids, s.selectedPid, s.selected, s.scrollOffset,
    s.visibleRows)

/-- The rest of the state does not matter. -/
theorem Good.congr {s s' : TuiState} (h : s.Good) (hc : s'.cursors = s.cursors) : s'.Good := by
  simp only [cursors, Prod.mk.injEq] at hc
  obtain ⟨hpicker, hview, hpids, hlocked, hselected, hoffset, hvisible⟩ := hc
  refine ⟨?_, ?_, ?_, ?_, ?_⟩
  · rw [hpicker]
    exact h.picker
  · rw [hpids, hview]
    exact h.pids
  · rw [hview, hselected]
    exact h.selected
  · rw [hview, hselected, hoffset, hvisible]
    exact h.window
  · rw [hview, hselected, hpids, hlocked]
    exact h.locked

end TuiState

variable {s s' : TuiState}

/-- An action on the rest of the state. -/
theorem keeps_done {action : Action} (hc : s'.cursors = s.cursors) : Keeps s (done s' action) :=
  fun h => ⟨_, rfl, h.congr hc⟩

theorem keeps_applySort (s : TuiState) (key : SortKey) : Keeps s (applySort s key) := by
  unfold applySort
  split
  · exact keeps_done rfl
  · exact keeps_done rfl

/-- **Moving the cursor** keeps it in range and in the window, and locks it onto its row. -/
theorem keeps_moveCursor (s : TuiState) (isUp : Bool) : Keeps s (moveCursor s isUp) := by
  intro h
  unfold moveCursor
  cases s.activePane with
  | main =>
    simp only
    split
    case isTrue => exact ⟨_, rfl, h⟩
    case isFalse hlen =>
      have hpos : 0 < s.view.length := Nat.pos_of_ne_zero hlen
      obtain ⟨selected, scrollOffset, hclamp, hsel, -, hle, hwin⟩ :=
        clampScroll_spec (if isUp then s.selected - 1 else min (s.selected + 1) (s.view.length - 1))
          s.scrollOffset s.visibleRows hpos
      rw [hclamp]
      exact ⟨_, rfl, h.picker, h.pids, fun _ => hsel, fun _ hvis => ⟨hle, hwin hvis⟩,
        fun _ _ hpid => hpid⟩
  | unit =>
    have hpicker := h.picker
    refine ⟨_, rfl, ?_, h.pids, h.selected, h.window, h.locked⟩
    show (if isUp then s.unitPickerCursor - 1 else
      min (s.unitPickerCursor + 1) (DisplayUnit.ALL.length - 1)) < DisplayUnit.ALL.length
    split <;> omega
  | help => exact ⟨_, rfl, h⟩
  | filter => exact ⟨_, rfl, h⟩

theorem keeps_filterInput (s : TuiState) (key : KeyEvent) : Keeps s (handleFilterInput s key) := by
  obtain ⟨code, control⟩ := key
  cases code <;> exact keeps_done rfl

/-- **Every binding of a table keeps the state good.** -/
theorem keeps_mainKeys (s : TuiState) : ∀ kb ∈ MAIN_KEYS, Keeps s (kb.action s) := by
  simp only [MAIN_KEYS, List.forall_mem_cons]
  refine ⟨fun h => ⟨_, rfl, h⟩, fun h => ⟨_, rfl, h⟩, keeps_done rfl, keeps_done rfl, ?_, ?_,
    keeps_done rfl, keeps_done rfl, ?_, nofun⟩
  · -- The other table starts at its top.
    intro h
    refine ⟨_, rfl, h.picker, h.pids, fun hview => List.length_pos_iff.mpr hview, fun _ hvis => ?_,
      fun _ => nofun⟩
    exact ⟨Nat.le_refl 0, by simpa using hvis⟩
  · intro h
    exact ⟨_, rfl, s.unit.index_lt, h.pids, h.selected, h.window, h.locked⟩
  · show Keeps s (if s.filterText.isEmpty then _ else _)
    split
    · exact keeps_done rfl
    · exact keeps_done rfl

theorem keeps_unitPickerKeys (s : TuiState) : ∀ kb ∈ UNIT_PICKER_KEYS, Keeps s (kb.action s) := by
  simp only [UNIT_PICKER_KEYS, List.forall_mem_cons]
  refine ⟨fun h => ?_, keeps_done rfl, nofun⟩
  rw [List.getElem?_eq_getElem h.picker]
  exact ⟨_, rfl, h.congr rfl⟩

theorem keeps_sortKeys (s : TuiState) : ∀ kb ∈ SORT_KEYS, Keeps s (kb.action s) := by
  simp only [SORT_KEYS, List.forall_mem_cons]
  exact ⟨keeps_done rfl, keeps_applySort s .pid, keeps_applySort s .name,
    keeps_applySort s .sent, keeps_applySort s .recv, keeps_applySort s .total, nofun⟩

theorem keeps_navigationKeys (s : TuiState) : ∀ kb ∈ NAVIGATION_KEYS, Keeps s (kb.action s) := by
  simp only [NAVIGATION_KEYS, List.forall_mem_cons]
  exact ⟨keeps_moveCursor s true, keeps_moveCursor s false, keeps_moveCursor s true,
    keeps_moveCursor s false, nofun⟩

theorem keeps_otherKeys (s : TuiState) :
    ∀ kb ∈ QUIT_KEYS ++ HELP_KEYS ++ FILTER_KEYS, Keeps s (kb.action s) := by
  simp only [QUIT_KEYS, HELP_KEYS, FILTER_KEYS, List.cons_append, List.nil_append,
    List.forall_mem_cons]
  exact ⟨keeps_done rfl, keeps_done rfl, keeps_done rfl, keeps_done rfl, keeps_done rfl,
    keeps_done rfl, keeps_done rfl, keeps_done rfl, nofun⟩

/-- **Handling a key does not panic**, and keeps what holds between two frames. -/
theorem handleKey_spec (h : s.Good) (key : KeyEvent) :
    ∃ handled, handleKey s key = some handled ∧ handled.state.Good := by
  rcases handleKey_cases s key with hkey | hkey | ⟨kb, hmem, -, hkey⟩
  · exact hkey ▸ keeps_filterInput s key h
  · exact ⟨_, hkey, h⟩
  · rw [hkey]
    rcases mem_keybinds hmem with hmem | hmem | hmem | hmem | hmem
    · exact keeps_sortKeys s kb hmem h
    · exact keeps_navigationKeys s kb hmem h
    · exact keeps_mainKeys s kb hmem h
    · exact keeps_unitPickerKeys s kb hmem h
    · exact keeps_otherKeys s kb hmem h

end Procnet
