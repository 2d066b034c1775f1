import Procnet.Core.Ipc

/-!
# The state of the client's screen

The data of `procnet/src/tui/state.rs`: what the client keeps between two frames. The rows of the
last frame are kept as indices into the snapshot it was drawn from (`view`), and as the pids they
had then (`viewPids`), which is all that is known of them when a key is handled.
-/

namespace Procnet

/-- The column the rows are sorted by. -/
inductive SortKey where
  | pid : SortKey
  | name : SortKey
  | sent : SortKey
  | recv : SortKey
  | total : SortKey
  deriving DecidableEq, Repr

inductive SortDir where
  | asc : SortDir
  | desc : SortDir
  deriving DecidableEq, Repr

/-- The other direction. -/
def SortDir.toggle : SortDir → SortDir
  | .asc => .desc
  | .desc => .asc

/-- The direction a column is sorted in at first. -/
def SortKey.defaultDirection : SortKey → SortDir
  | .pid | .name => .asc
  | .sent | .recv | .total => .desc

/-- What the filter is compared with. -/
inductive FilterTarget where
  | name : FilterTarget
  | pid : FilterTarget
  deriving DecidableEq, Repr

def FilterTarget.toggle : FilterTarget → FilterTarget
  | .name => .pid
  | .pid => .name

/-- Display unit for byte counts. -/
inductive DisplayUnit where
  | auto : DisplayUnit
  | b : DisplayUnit
  | kb : DisplayUnit
  | mb : DisplayUnit
  | gb : DisplayUnit
  | tb : DisplayUnit
  deriving DecidableEq, Repr

namespace DisplayUnit

/-- All units, in the order of the picker. -/
def ALL : List DisplayUnit := [.auto, .b, .kb, .mb, .gb, .tb]

/-- Position in `ALL`. -/
def index (u : DisplayUnit) : ℕ := (ALL.findIdx? (· = u)).getD 0

theorem index_lt (u : DisplayUnit) : u.index < ALL.length := by
  cases u <;> decide

end DisplayUnit

/-- Outcome of a single input event. -/
inductive Action where
  | quit : Action
  | redraw : Action
  | none : Action
  deriving DecidableEq, Repr

/-- Which table the main pane shows. -/
inductive ViewMode where
  | live : ViewMode
  | dead : ViewMode
  deriving DecidableEq, Repr

def ViewMode.toggle : ViewMode → ViewMode
  | .live => .dead
  | .dead => .live

inductive Pane where
  | main : Pane
  | help : Pane
  | unit : Pane
  | filter : Pane
  deriving DecidableEq, Repr

/-- The state of the screen. -/
structure TuiState where
  sortKey : SortKey
  sortDir : SortDir
  activePane : Pane
  viewMode : ViewMode
  filterTarget : FilterTarget
  /-- Committed filter. Empty string means no filtering. -/
  filterText : String
  unit : DisplayUnit
  /-- Cursor row inside the unit picker (index into `DisplayUnit.ALL`). -/
  unitPickerCursor : ℕ
  /-- PID of the row the cursor is locked onto; `none` means that it floats on the top row. -/
  selectedPid : Option UInt32
  /-- Index of the cursor in the last rendered view. -/
  selected : ℕ
  /-- First visible row. -/
  scrollOffset : ℕ
  /-- Indices into the list shown. -/
  view : List ℕ
  /-- PIDs of the current view. -/
  viewPids : List UInt32
  /-- How many table rows fit in the area. -/
  visibleRows : ℕ
  /-- Whether the live snapshot feed is frozen. -/
  paused : Bool
  showDetail : Bool
  deriving DecidableEq, Repr

namespace TuiState

/-- The state the client starts in. -/
def new : TuiState where
  sortKey := .name
  sortDir := .desc
  activePane := .main
  viewMode := .live
  filterTarget := .name
  filterText := ""
  unit := .auto
  unitPickerCursor := DisplayUnit.auto.index
  selectedPid := none
  selected := 0
  scrollOffset := 0
  view := []
  viewPids := []
  visibleRows := 0
  paused := false
  showDetail := false

/-- **What holds between two frames**, whatever list they show: the cursors are in range, the
cursor is in the window, and the row it is on is the one it is locked onto. -/
structure Good (s : TuiState) : Prop where
  picker : s.unitPickerCursor < DisplayUnit.ALL.length
  pids : s.viewPids.length = s.view.length
  selected : s.view ≠ [] → s.selected < s.view.length
  window : s.view ≠ [] → 0 < s.visibleRows →
    s.scrollOffset ≤ s.selected ∧ s.selected < s.scrollOffset + s.visibleRows
  locked : s.view ≠ [] → ∀ pid, s.selectedPid = some pid → s.viewPids[s.selected]? = some pid

theorem good_new : new.Good where
  picker := DisplayUnit.index_lt .auto
  pids := rfl
  selected := fun h => absurd rfl h
  window := fun h => absurd rfl h
  locked := fun h => absurd rfl h

end TuiState

end Procnet
