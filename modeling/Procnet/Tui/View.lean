import Mathlib.Data.List.Sort
import Procnet.Tui.State

/-!
# Drawing a frame

What `procnet/src/tui/view.rs` computes from a snapshot when a frame is drawn. The list to be
shown, of the running processes or of the dead ones, is filtered and sorted into the view; the
cursor is put on the row it is locked onto, or on the first one; the window is moved so that it
shows the cursor; and the rows in the window are drawn.

The two lists are drawn alike, by two copies of the code: `Columns` is what differs between them.
Every access by index is explicit, and fails where the code panics. `render_spec` says that none
does, and what the frame and the state have in common afterwards (`Shows`).
-/

namespace Procnet

open Lib

/-- The elements from `a` up to `b`, which panics if there are not as many. -/
def slice {α : Type} (l : List α) (a b : ℕ) : Option (List α) :=
  if a ≤ b ∧ b ≤ l.length then some ((l.take b).drop a) else none

theorem exists_slice {α : Type} {l : List α} {a b : ℕ} (hab : a ≤ b) (hb : b ≤ l.length) :
    ∃ display, slice l a b = some display ∧ ∀ x ∈ display, x ∈ l :=
  ⟨_, if_pos ⟨hab, hb⟩, fun _ hx => List.mem_of_mem_take (List.mem_of_mem_drop hx)⟩

/-- One string occurs in another one. -/
def contains (text needle : String) : Bool := needle.toList <:+: text.toList

/-- Clamps the cursor and the scroll offset so that the selected row stays inside the visible
window. -/
def clampScroll (selected offset numVisibleRows len : ℕ) : ℕ × ℕ :=
  if len = 0 then (0, 0)
  else
    let selected := min selected (len - 1)
    let vis := numVisibleRows
    if vis = 0 ∨ len ≤ vis then (selected, 0)
    else
      let offset := min offset (len - vis)
      if selected < offset then (selected, selected)
      else if selected > offset + vis - 1 then (selected, selected + 1 - vis)
      else (selected, offset)

/-- **The cursor stays in the window**, and where it was if that is a row. -/
theorem clampScroll_spec (selected offset vis : ℕ) {len : ℕ} (hlen : 0 < len) :
    ∃ selected' offset', clampScroll selected offset vis len = (selected', offset') ∧
      selected' < len ∧ (selected < len → selected' = selected) ∧ offset' ≤ selected' ∧
      (0 < vis → selected' < offset' + vis) := by
  simp only [clampScroll]
  rw [if_neg (Nat.ne_of_gt hlen)]
  split
  · exact ⟨_, _, rfl, by omega, by omega, by omega, by omega⟩
  · split
    · exact ⟨_, _, rfl, by omega, by omega, by omega, by omega⟩
    · split
      · exact ⟨_, _, rfl, by omega, by omega, by omega, by omega⟩
      · exact ⟨_, _, rfl, by omega, by omega, by omega, by omega⟩

/-! ### The columns of a table -/

/-- What a table shows of the elements of its list, and what it says when there are none. -/
structure Columns (α : Type) where
  pid : α → UInt32
  name : α → String
  total : α → StatsBytes
  empty : String
  noMatch : String

/-- Per-protocol cumulative totals for a dead process: TCP + UDP combined. -/
def deadTotal (p : ProcInfo) : StatsBytes := p.tcpCum.merge p.udpCum

/-- The table of the running processes. -/
def rowColumns : Columns StatsRow where
  pid := StatsRow.pid
  name := StatsRow.name
  total := StatsRow.total
  empty := "Waiting for process stats..."
  noMatch := "No processes match the filter..."

/-- The table of the dead ones. -/
def deadColumns : Columns ProcInfo where
  pid := ProcInfo.pid
  name := ProcInfo.name
  total := deadTotal
  empty := "No dead processes yet."
  noMatch := "No dead processes match the filter..."

/-- The main pane: a text, or the rows in the window, and which one is highlighted. -/
inductive Table where
  | paragraph (text : String) : Table
  | rows (rows : List (UInt32 × Bool)) : Table
  deriving DecidableEq, Repr

/-- What is drawn; the detail pane, if it is shown, has the process that is selected. -/
structure Frame where
  table : Table
  detail : Option (Option UInt32)
  deriving DecidableEq, Repr

/-- The row of the cursor: the one it is locked onto, or the first one. A pid that has vanished
releases the lock. -/
def resolveCursor (locked : Option UInt32) (pids : List UInt32) : ℕ × Option UInt32 :=
  (locked.bind fun pid => (pids.findIdx? (· = pid)).map fun i => (i, some pid)).getD (0, none)

/-- **The cursor is on a row**, of the pid it is locked onto if there is one. -/
theorem resolveCursor_spec (locked : Option UInt32) {pids : List UInt32} (hpids : pids ≠ []) :
    ∃ i q, resolveCursor locked pids = (i, q) ∧ i < pids.length ∧
      (∀ pid, q = some pid → pids[i]? = some pid) ∧
      ∀ pid, locked = some pid → pid ∈ pids → q = some pid := by
  have htop : 0 < pids.length := List.length_pos_iff.mpr hpids
  cases locked with
  | none => exact ⟨0, none, rfl, htop, nofun, nofun⟩
  | some pid =>
    cases hfind : pids.findIdx? (· = pid) with
    | none =>
      refine ⟨0, none, by simp [resolveCursor, hfind], htop, nofun, ?_⟩
      intro pid' hpid' hmem
      obtain rfl := Option.some.inj hpid'
      have hno := List.findIdx?_eq_none_iff.mp hfind pid hmem
      simp at hno
    | some i =>
      obtain ⟨hlt, hi, -⟩ := List.findIdx?_eq_some_iff_getElem.mp hfind
      refine ⟨i, some pid, by simp [resolveCursor, hfind], hlt, ?_, fun pid' h _ => h⟩
      intro pid' hpid'
      obtain rfl := Option.some.inj hpid'
      rw [List.getElem?_eq_getElem hlt, of_decide_eq_true hi]

namespace TuiState

/-- The state after a frame, by the view and its pids. An empty view leaves the cursor alone. -/
def drawn (s : TuiState) (height : ℕ) (view : List ℕ) (pids : List UInt32) : TuiState :=
  if view.isEmpty then { s with view := view, visibleRows := 0, viewPids := [] }
  else
    let (selected, selectedPid) := resolveCursor s.selectedPid pids
    let (selected, scrollOffset) := clampScroll selected s.scrollOffset (height - 3) view.length
    { s with view, selected, scrollOffset, visibleRows := height - 3, viewPids := pids,
             selectedPid }

variable {s : TuiState} {height : ℕ} {view : List ℕ} {pids : List UInt32}

@[simp] theorem view_drawn : (s.drawn height view pids).view = view := by
  unfold drawn
  split <;> rfl

@[simp] theorem viewMode_drawn : (s.drawn height view pids).viewMode = s.viewMode := by
  unfold drawn
  split <;> rfl

theorem viewPids_drawn (hlen : pids.length = view.length) :
    (s.drawn height view pids).viewPids = pids := by
  unfold drawn
  split
  case isTrue hview =>
    rw [List.isEmpty_iff.mp hview, List.length_nil] at hlen
    exact (List.length_eq_zero_iff.mp hlen).symm
  case isFalse => rfl

/-- **Where the cursor is after a frame**: on the row that is resolved, which is in the list and
needs no clamping. -/
theorem drawn_of_ne_nil (s : TuiState) (height : ℕ) (hview : view ≠ [])
    (hlen : pids.length = view.length) :
    ∃ scrollOffset, s.drawn height view pids =
      { s with view := view, selected := (resolveCursor s.selectedPid pids).1, scrollOffset,
               visibleRows := height - 3, viewPids := pids,
               selectedPid := (resolveCursor s.selectedPid pids).2 } ∧
      scrollOffset ≤ (resolveCursor s.selectedPid pids).1 ∧
      (resolveCursor s.selectedPid pids).1 < view.length ∧
      (0 < height - 3 → (resolveCursor s.selectedPid pids).1 < scrollOffset + (height - 3)) := by
  have hpos : 0 < view.length := List.length_pos_iff.mpr hview
  obtain ⟨row, locked, hrow, hlt, -, -⟩ := resolveCursor_spec s.selectedPid (show pids ≠ [] by
    rw [← List.length_pos_iff, hlen]
    exact hpos)
  obtain ⟨selected, scrollOffset, hclamp, hsel, hsame, hle, hwin⟩ :=
    clampScroll_spec row s.scrollOffset (height - 3) hpos
  -- The row is one of the view already, so the clamping leaves it alone.
  obtain rfl := hsame (hlen ▸ hlt)
  refine ⟨scrollOffset, ?_, by rwa [hrow], by rwa [hrow], by rwa [hrow]⟩
  rw [drawn, if_neg (by simpa using hview)]
  simp only [hrow, hclamp]

theorem good_drawn (hpicker : s.unitPickerCursor < DisplayUnit.ALL.length)
    (hlen : pids.length = view.length) (height : ℕ) : (s.drawn height view pids).Good := by
  rcases eq_or_ne view [] with rfl | hview
  · refine ⟨hpicker, ?_, fun hne => absurd rfl hne, fun hne => absurd rfl hne,
      fun hne => absurd rfl hne⟩
    rw [viewPids_drawn hlen, view_drawn, hlen]
  · obtain ⟨scrollOffset, hdrawn, hle, hlt, hwin⟩ :=
      drawn_of_ne_nil s height hview hlen
    obtain ⟨row, locked, hrow, -, hlocked, -⟩ := resolveCursor_spec s.selectedPid (show pids ≠ [] by
      rw [← List.length_pos_iff, hlen]
      exact List.length_pos_iff.mpr hview)
    rw [hrow] at hdrawn hle hlt hwin
    rw [hdrawn]
    exact ⟨hpicker, hlen, fun _ => hlt, fun _ hvis => ⟨hle, hwin hvis⟩,
      fun _ pid hpid => hlocked pid hpid⟩

/-- A frame keeps the cursor on the pid it is locked onto, if it is shown. -/
theorem lock_drawn (hlen : pids.length = view.length) {pid : UInt32}
    (hpid : s.selectedPid = some pid)
    (hmem : pid ∈ pids) :
    (s.drawn height view pids).selectedPid = some pid ∧
      pids[(s.drawn height view pids).selected]? = some pid := by
  have hview : view ≠ [] := by
    rintro rfl
    rw [List.length_eq_zero_iff.mp hlen] at hmem
    exact List.not_mem_nil hmem
  obtain ⟨scrollOffset, hdrawn, -⟩ := drawn_of_ne_nil s height hview hlen
  obtain ⟨row, locked, hrow, -, hlocked, hkeeps⟩ :=
    resolveCursor_spec s.selectedPid (List.ne_nil_of_mem hmem)
  rw [hrow] at hdrawn
  rw [hdrawn]
  exact ⟨hkeeps pid hpid hmem, hlocked pid (hkeeps pid hpid hmem)⟩

end TuiState

/-- Whether an entry passes the filter. -/
def FilterTarget.selects (target : FilterTarget) (needle name : String) (pid : UInt32) : Bool :=
  match target with
  | .name => contains name needle
  | .pid => contains (toString pid.toNat) needle

namespace Columns

variable {α : Type} (t : Columns α)

/-- How two entries compare; ties are broken by pid, in either direction. -/
def compare (key : SortKey) (dir : SortDir) (a b : α) : Ordering :=
  let primary :=
    match key with
    | .pid => Ord.compare (t.pid a) (t.pid b)
    | .name => Ord.compare (t.name a) (t.name b)
    | .sent => Ord.compare (t.total a).sent (t.total b).sent
    | .recv => Ord.compare (t.total a).recv (t.total b).recv
    | .total => Ord.compare (t.total a).combine (t.total b).combine
  let primary := if dir = .desc then primary.swap else primary
  primary.then (Ord.compare (t.pid a) (t.pid b))

/-- Sorts indices into a list. -/
def sort (xs : List α) (indices : List ℕ) (key : SortKey) (dir : SortDir) : Option (List ℕ) :=
  (indices.mapM fun i => xs[i]?.map fun x => (i, x)).map fun l =>
    (l.insertionSort fun a b => t.compare key dir a.2 b.2 ≠ .gt).map Prod.fst

/-- The indices of the entries that pass the filter, sorted. -/
def view (xs : List α) (s : TuiState) : Option (List ℕ) :=
  if xs.isEmpty then some []
  else
    let indices :=
      if s.filterText.isEmpty then List.range xs.length
      else
        let needle := makeAsciiLowercase s.filterText
        xs.zipIdx.filterMap fun (x, i) =>
          if s.filterTarget.selects needle (t.name x) (t.pid x) then some i else none
    t.sort xs indices s.sortKey s.sortDir

/-- The rows in the window. -/
def renderTableWidget (xs : List α) (s : TuiState) : Option (List (UInt32 × Bool)) :=
  let stop := min (s.scrollOffset + s.visibleRows) s.view.length
  (slice s.view s.scrollOffset stop).bind fun display =>
    display.zipIdx.mapM fun (idx, i) =>
      xs[idx]?.map fun x => (t.pid x, s.scrollOffset + i = s.selected)

/-- The table pane, in an area of the given height. -/
def renderTable (xs : List α) (height : ℕ) (s : TuiState) : Option (TuiState × Table) :=
  if xs.isEmpty then some ({ s with visibleRows := 0, viewPids := [] }, .paragraph t.empty)
  else if s.view.isEmpty then
    some ({ s with visibleRows := 0, viewPids := [] }, .paragraph t.noMatch)
  else
    (s.view.mapM fun i => xs[i]?.map t.pid).bind fun pids =>
      let (selected, resolvedPid) := resolveCursor s.selectedPid pids
      let visibleRows := height - 3
      let (selected, scrollOffset) :=
        clampScroll selected s.scrollOffset visibleRows s.view.length
      let s := { s with selected, scrollOffset, visibleRows, viewPids := pids,
                        selectedPid := resolvedPid }
      (t.renderTableWidget xs s).map fun rows => (s, .rows rows)

/-- The process in the detail pane. -/
def renderDetail (xs : List α) (s : TuiState) : Option (Option UInt32) :=
  match s.view[s.selected]? with
  | none => some none
  | some idx => xs[idx]?.map fun x => some (t.pid x)

/-- A frame of the table. -/
def render (xs : List α) (height : ℕ) (s : TuiState) : Option (TuiState × Frame) :=
  (t.view xs s).bind fun view =>
    (t.renderTable xs height { s with view }).bind fun (s, table) =>
      if s.showDetail then (t.renderDetail xs s).map fun detail => (s, ⟨table, some detail⟩)
      else some (s, ⟨table, none⟩)

/-- **What a frame and the state have in common**: every index in the view is one of the list, the
pids are those of the entries, and the cursor follows the pid it is locked onto. -/
structure Shows (xs : List α) (locked : Option UInt32) (s : TuiState) : Prop where
  indices : ∀ i ∈ s.view, i < xs.length
  pids : s.viewPids.length = s.view.length
  pid : ∀ (k : ℕ) (i : ℕ), s.view[k]? = some i → ∃ x, xs[i]? = some x ∧
    s.viewPids[k]? = some (t.pid x)
  lock : ∀ pid, locked = some pid → pid ∈ s.viewPids →
    s.selectedPid = some pid ∧ s.viewPids[s.selected]? = some pid

variable {t} {xs : List α} {s : TuiState}

/-- **Sorting permutes the indices.** -/
theorem sort_spec {indices : List ℕ} (h : ∀ i ∈ indices, i < xs.length) (key : SortKey)
    (dir : SortDir) : ∃ view, t.sort xs indices key dir = some view ∧ view.Perm indices := by
  obtain ⟨l, hl, -, hget⟩ := exists_mapM_eq_some (f := fun i => xs[i]?.map fun x => (i, x))
    (l := indices) fun i hi => ⟨(i, xs.get ⟨i, h i hi⟩), by simp [h i hi]⟩
  have hfst : l.map Prod.fst = indices := by
    refine List.ext_getElem? fun k => ?_
    rw [List.getElem?_map, hget]
    cases hk : indices[k]? with
    | none => rfl
    | some i => simp [h i (List.mem_of_getElem? hk)]
  refine ⟨_, by rw [sort, hl]; rfl, ?_⟩
  exact ((List.perm_insertionSort _ l).map Prod.fst).trans (List.Perm.of_eq hfst)

/-- **The view has indices of the list only.** -/
theorem view_spec (xs : List α) (s : TuiState) :
    ∃ view, t.view xs s = some view ∧ ∀ i ∈ view, i < xs.length := by
  unfold view
  split
  · exact ⟨[], rfl, nofun⟩
  · have hindices : ∀ i ∈ (if s.filterText.isEmpty then List.range xs.length
        else xs.zipIdx.filterMap fun (x, i) =>
          if s.filterTarget.selects (makeAsciiLowercase s.filterText) (t.name x) (t.pid x) then
            some i else none), i < xs.length := by
      intro i hi
      split at hi
      · exact List.mem_range.mp hi
      · obtain ⟨⟨x, j⟩, hmem, hj⟩ := List.mem_filterMap.mp hi
        obtain ⟨-, rfl⟩ : _ ∧ j = i := by simpa using hj
        exact (List.getElem?_eq_some_iff.mp (List.mem_zipIdx_iff_getElem?.mp hmem)).1
    obtain ⟨view, hview, hperm⟩ := sort_spec (t := t) hindices s.sortKey s.sortDir
    exact ⟨view, hview, fun i hi => hindices i (hperm.mem_iff.mp hi)⟩

/-- **The slice and the rows of the window are in range**, where the cursor is. -/
theorem exists_renderTableWidget (hview : ∀ i ∈ s.view, i < xs.length)
    (hoffset : s.scrollOffset ≤ s.view.length) :
    ∃ rows, t.renderTableWidget xs s = some rows := by
  obtain ⟨display, hslice, hdisplay⟩ := exists_slice (l := s.view) (a := s.scrollOffset)
    (b := min (s.scrollOffset + s.visibleRows) s.view.length) (by omega) (by omega)
  obtain ⟨rows, hrows, -⟩ := exists_mapM_eq_some
    (f := fun (idx, i) => xs[idx]?.map fun x =>
      (t.pid x, decide (s.scrollOffset + i = s.selected))) (l := display.zipIdx) (by
    rintro ⟨idx, i⟩ hmem
    have hidx : idx < xs.length :=
      hview idx (hdisplay idx (List.mem_of_getElem? (List.mem_zipIdx_iff_getElem?.mp hmem)))
    exact ⟨(t.pid (xs.get ⟨idx, hidx⟩), decide (s.scrollOffset + i = s.selected)),
      by simp [hidx]⟩)
  exact ⟨rows, by rw [renderTableWidget, hslice]; exact hrows⟩

variable (t) in
/-- **The pids of a view** can be read. -/
theorem exists_pids {view : List ℕ} (hview : ∀ i ∈ view, i < xs.length) :
    ∃ pids : List UInt32, (view.mapM fun i => xs[i]?.map t.pid) = some pids ∧
      pids.length = view.length ∧
      ∀ k : ℕ, pids[k]? = view[k]?.bind fun i => xs[i]?.map t.pid :=
  exists_mapM_eq_some fun i hi => ⟨t.pid (xs.get ⟨i, hview i hi⟩), by simp [hview i hi]⟩

/-- **Drawing a table** fails on no index. -/
theorem exists_renderTable (hview : ∀ i ∈ s.view, i < xs.length) (height : ℕ) {pids : List UInt32}
    (hpids : (s.view.mapM fun i => xs[i]?.map t.pid) = some pids)
    (hlen : pids.length = s.view.length) :
    ∃ table, t.renderTable xs height s = some (s.drawn height s.view pids, table) := by
  unfold renderTable
  split
  case isTrue hxs =>
    -- No index is one of an empty list.
    have hv : s.view = [] := by
      refine List.eq_nil_iff_forall_not_mem.mpr fun i hi => ?_
      have hlt := hview i hi
      rw [List.isEmpty_iff.mp hxs] at hlt
      exact Nat.not_lt_zero i hlt
    rw [TuiState.drawn, hv]
    exact ⟨_, rfl⟩
  case isFalse =>
    split
    case isTrue hv =>
      rw [TuiState.drawn, if_pos hv]
      exact ⟨_, rfl⟩
    case isFalse hv =>
      obtain ⟨scrollOffset, hdrawn, hle, hlt, -⟩ :=
        TuiState.drawn_of_ne_nil s height (by simpa using hv) hlen
      obtain ⟨rows, hrows⟩ : ∃ rows, t.renderTableWidget xs (s.drawn height s.view pids) =
          some rows := by
        refine exists_renderTableWidget ?_ ?_
        · rw [TuiState.view_drawn]
          exact hview
        · rw [hdrawn]
          exact Nat.le_of_lt (Nat.lt_of_le_of_lt hle hlt)
      refine ⟨.rows rows, ?_⟩
      rw [TuiState.drawn, if_neg hv] at hrows ⊢
      simp only [hpids, Option.bind_some, hrows, Option.map_some]

variable (t) in
/-- **Drawing a frame** fails on no index, and leaves the view with its pids. -/
theorem render_eq (xs : List α) (height : ℕ) (s : TuiState) :
    ∃ view pids frame, t.view xs s = some view ∧
      (view.mapM fun i => xs[i]?.map t.pid) = some pids ∧
      t.render xs height s = some (s.drawn height view pids, frame) := by
  obtain ⟨view, hview, hlt⟩ := view_spec (t := t) xs s
  obtain ⟨pids, hpids, hlen, -⟩ := t.exists_pids hlt
  obtain ⟨table, htable⟩ :=
    exists_renderTable (t := t) (s := { s with view }) hlt height hpids hlen
  have hdrawn : ({ s with view } : TuiState).drawn height view pids = s.drawn height view pids := by
    unfold TuiState.drawn
    split <;> rfl
  have hindices : ∀ i ∈ (s.drawn height view pids).view, i < xs.length := by
    intro i hi
    rw [TuiState.view_drawn] at hi
    exact hlt i hi
  rw [hdrawn] at htable
  by_cases hdetail : (s.drawn height view pids).showDetail
  · have hread : ∃ detail, t.renderDetail xs (s.drawn height view pids) = some detail := by
      cases hidx : (s.drawn height view pids).view[(s.drawn height view pids).selected]? with
      | none => exact ⟨none, by rw [renderDetail, hidx]⟩
      | some idx =>
        have hidx' := hindices idx (List.mem_of_getElem? hidx)
        refine ⟨some (t.pid (xs.get ⟨idx, hidx'⟩)), ?_⟩
        rw [renderDetail, hidx]
        simp [hidx']
    obtain ⟨detail, hread⟩ := hread
    refine ⟨view, pids, ⟨table, some detail⟩, hview, hpids, ?_⟩
    simp only [render, hview, htable, Option.bind_some, if_pos hdetail, hread, Option.map_some]
  · refine ⟨view, pids, ⟨table, none⟩, hview, hpids, ?_⟩
    simp only [render, hview, htable, Option.bind_some, if_neg hdetail]

/-- **Drawing a frame** fails on no index, and leaves the state as the frame shows it. -/
theorem render_spec (t : Columns α) (xs : List α)
    (hpicker : s.unitPickerCursor < DisplayUnit.ALL.length) (height : ℕ) :
    ∃ s' frame, t.render xs height s = some (s', frame) ∧ t.Shows xs s.selectedPid s' ∧
      s'.Good ∧ s'.viewMode = s.viewMode := by
  obtain ⟨view, pids, frame, hview, hpids, hrender⟩ := t.render_eq xs height s
  obtain ⟨view', hview', hlt⟩ := view_spec (t := t) xs s
  obtain rfl := Option.some.inj (hview'.symm.trans hview)
  obtain ⟨pids', hpids', hlen, hget⟩ := t.exists_pids hlt
  obtain rfl := Option.some.inj (hpids'.symm.trans hpids)
  refine ⟨_, frame, hrender, ⟨?_, ?_, ?_, ?_⟩, TuiState.good_drawn hpicker hlen height,
    TuiState.viewMode_drawn⟩
  · rw [TuiState.view_drawn]
    exact hlt
  · rw [TuiState.view_drawn, TuiState.viewPids_drawn hlen]
    exact hlen
  · intro k i hk
    rw [TuiState.view_drawn] at hk
    have hi := hlt i (List.mem_of_getElem? hk)
    refine ⟨xs.get ⟨i, hi⟩, by simp [hi], ?_⟩
    rw [TuiState.viewPids_drawn hlen, hget, hk]
    simp [hi]
  · intro pid hpid hmem
    rw [TuiState.viewPids_drawn hlen] at hmem ⊢
    exact TuiState.lock_drawn hlen hpid hmem

end Columns

/-- Draws a frame; `height` is what the layout leaves for the table. -/
def render (snap : SnapshotData) (height : ℕ) (s : TuiState) : Option (TuiState × Frame) :=
  match s.viewMode with
  | .live => rowColumns.render snap.rows height s
  | .dead => deadColumns.render snap.deadProcs height s

/-- **What a frame shows of the snapshot it was drawn from.** -/
def Shows (snap : SnapshotData) (locked : Option UInt32) (s : TuiState) : Prop :=
  match s.viewMode with
  | .live => rowColumns.Shows snap.rows locked s
  | .dead => deadColumns.Shows snap.deadProcs locked s

/-- **Drawing a frame fails on no index**, whatever the snapshot, the height and the state. -/
theorem render_spec {s : TuiState} (hpicker : s.unitPickerCursor < DisplayUnit.ALL.length)
    (snap : SnapshotData) (height : ℕ) :
    ∃ s' frame, render snap height s = some (s', frame) ∧ Shows snap s.selectedPid s' ∧
      s'.Good := by
  unfold render Shows
  cases hmode : s.viewMode with
  | live =>
    obtain ⟨s', frame, hrender, hshows, hgood, hmode'⟩ :=
      rowColumns.render_spec snap.rows hpicker height
    exact ⟨s', frame, hrender, by rwa [hmode', hmode], hgood⟩
  | dead =>
    obtain ⟨s', frame, hrender, hshows, hgood, hmode'⟩ :=
      deadColumns.render_spec snap.deadProcs hpicker height
    exact ⟨s', frame, hrender, by rwa [hmode', hmode], hgood⟩

end Procnet
