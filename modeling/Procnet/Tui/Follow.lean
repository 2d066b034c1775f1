import Procnet.Tui.Manual

/-!
# What the frames show of a process that is followed

`render_table` of `procnet/src/tui/view.rs` draws the part of the view that is in the window, and
highlights the row of the cursor; `render_detail` shows the process of the same row. `Frame.Depicts`
says so in terms of the state that a frame leaves, and `frames_depict` that every frame of every
session does.

When the cursor is locked onto a process and the user leaves it there, the rows around it change
with every snapshot, and the user may sort, filter, resize and pause. `cursor_follows_iff` says when
the lock survives all this: exactly if every frame shows the process, or nothing at all. Then every
frame that shows it highlights it, and has it in the detail pane.
-/

namespace Procnet

open Lib

/-! ### What a frame shows -/

namespace Table

/-- The pids in the rows, from the top. -/
def pids : Table → List UInt32
  | .paragraph _ => []
  | .rows shown => shown.map Prod.fst

/-- The pids in the rows that are highlighted. -/
def highlighted : Table → List UInt32
  | .paragraph _ => []
  | .rows shown => (shown.filter Prod.snd).map Prod.fst

end Table

/-- **What a frame shows of the state that it leaves**: the rows in the window, or a text if there
are none, the row of the cursor highlighted, and its process in the detail pane. -/
structure Frame.Depicts (f : Frame) (s : TuiState) : Prop where
  text : s.viewPids = [] ↔ ∃ text, f.table = .paragraph text
  rows : f.table.pids = (s.viewPids.drop s.scrollOffset).take s.visibleRows
  highlighted : 0 < s.visibleRows → f.table.highlighted = s.viewPids[s.selected]?.toList
  detail : f.detail = if s.showDetail then some s.viewPids[s.selected]? else none

namespace Table

/-- The rows of a window, from an offset, in which the row of the cursor is highlighted. -/
def window (pids : List UInt32) (start rows selected : ℕ) : Table :=
  .rows (((pids.drop start).take rows).zipIdx.map fun p => (p.1, decide (start + p.2 = selected)))

/-- Only rows are highlighted. -/
theorem highlighted_subset (table : Table) : table.highlighted ⊆ table.pids := by
  cases table with
  | paragraph text => exact List.Subset.refl _
  | rows shown => exact List.map_subset _ (List.filter_subset_self shown)

theorem pids_window (pids : List UInt32) (start rows selected : ℕ) :
    (window pids start rows selected).pids = (pids.drop start).take rows := by
  rw [window, Table.pids, List.map_map]
  exact List.zipIdx_map_fst 0 _

/-- **Exactly the row of the cursor is highlighted**, where it is in the window. -/
theorem highlighted_window (pids : List UInt32) {start rows selected : ℕ}
    (hstart : start ≤ selected) (hrows : selected < start + rows) :
    (window pids start rows selected).highlighted = pids[selected]?.toList := by
  have hrow : (Prod.snd ∘ fun p : UInt32 × ℕ => (p.1, decide (start + p.2 = selected))) =
      fun p => decide (p.2 = selected - start) := by
    funext p
    refine decide_eq_decide.mpr ?_
    omega
  have hget : ((pids.drop start).take rows)[selected - start]? = pids[selected]? := by
    rw [List.getElem?_take_of_lt (by omega), List.getElem?_drop]
    congr 1
    omega
  rw [window, highlighted, List.filter_map, List.map_map, hrow, filter_zipIdx_eq,
    if_pos (Nat.zero_le _), Nat.sub_zero, hget]
  cases pids[selected]? <;> rfl

end Table

namespace Columns

variable {α : Type} {t : Columns α} {xs : List α} {s : TuiState}

/-- The slice that is drawn. -/
theorem slice_window {view : List ℕ} {start : ℕ} (hstart : start ≤ view.length) (rows : ℕ) :
    slice view start (min (start + rows) view.length) = some ((view.drop start).take rows) := by
  rw [slice, if_pos ⟨by omega, by omega⟩, List.drop_take]
  refine congrArg some (List.take_eq_take_iff.mpr ?_)
  rw [List.length_drop]
  omega

/-- **The rows in the window**, with the row of the cursor highlighted. -/
theorem renderTableWidget_eq (hview : ∀ i ∈ s.view, i < xs.length)
    (hoffset : s.scrollOffset ≤ s.view.length)
    (hpids : ∀ k : ℕ, s.viewPids[k]? = s.view[k]?.bind fun i => xs[i]?.map t.pid) :
    (t.renderTableWidget xs s).map .rows =
      some (Table.window s.viewPids s.scrollOffset s.visibleRows s.selected) := by
  have hread : ∀ p ∈ ((s.view.drop s.scrollOffset).take s.visibleRows).zipIdx,
      ∃ row, (xs[p.1]?.map fun x => (t.pid x, decide (s.scrollOffset + p.2 = s.selected))) =
        some row := by
    rintro ⟨idx, i⟩ hmem
    have hidx : idx < xs.length := hview idx (List.mem_of_mem_drop
      (List.mem_of_mem_take (List.mem_of_getElem? (List.mem_zipIdx_iff_getElem?.mp hmem))))
    exact ⟨_, by rw [List.getElem?_eq_getElem hidx]; rfl⟩
  obtain ⟨rows, hrows, -, hget⟩ := exists_mapM_eq_some hread
  have hwidget : t.renderTableWidget xs s = some rows := by
    simp only [renderTableWidget]
    rw [slice_window hoffset, Option.bind_some]
    exact hrows
  rw [hwidget]
  -- Row by row: the pid at the index, and whether the index is that of the cursor.
  refine congrArg (fun shown => some (Table.rows shown)) (List.ext_getElem? fun k => ?_)
  rw [hget, List.getElem?_zipIdx, List.getElem?_map, List.getElem?_zipIdx, List.getElem?_take,
    List.getElem?_take]
  split
  · rw [List.getElem?_drop, List.getElem?_drop, hpids]
    cases s.view[s.scrollOffset + k]? with
    | none => rfl
    | some idx => cases h : xs[idx]? <;> simp [h]
  · rfl

/-- **What the table pane has**: a text if nothing is listed, and otherwise the rows in the window,
with the row of the cursor highlighted. -/
theorem renderTable_eq (hview : ∀ i ∈ s.view, i < xs.length) (height : ℕ) {pids : List UInt32}
    (hpids : (s.view.mapM fun i => xs[i]?.map t.pid) = some pids)
    (hlen : pids.length = s.view.length)
    (hget : ∀ k : ℕ, pids[k]? = s.view[k]?.bind fun i => xs[i]?.map t.pid) :
    ∃ table, t.renderTable xs height s = some (s.drawn height s.view pids, table) ∧
      (s.view = [] → table = .paragraph (if xs.isEmpty then t.empty else t.noMatch)) ∧
      (s.view ≠ [] → table = .window pids (s.drawn height s.view pids).scrollOffset
        (s.drawn height s.view pids).visibleRows (s.drawn height s.view pids).selected) := by
  obtain ⟨table, htable⟩ := exists_renderTable (t := t) hview height hpids hlen
  refine ⟨table, htable, fun hnil => ?_, fun hne => ?_⟩
  · unfold renderTable at htable
    split at htable
    case isTrue hxs =>
      rw [if_pos hxs]
      exact (Prod.mk.inj (Option.some.inj htable)).2.symm
    case isFalse hxs =>
      rw [if_pos (List.isEmpty_iff.mpr hnil)] at htable
      rw [if_neg hxs]
      exact (Prod.mk.inj (Option.some.inj htable)).2.symm
  · have hdrawn : ∀ k : ℕ, (s.drawn height s.view pids).viewPids[k]? =
        (s.drawn height s.view pids).view[k]?.bind fun i => xs[i]?.map t.pid := by
      rw [TuiState.viewPids_drawn hlen, TuiState.view_drawn]
      exact hget
    obtain ⟨scrollOffset, hstate, hle, hlt, -⟩ := TuiState.drawn_of_ne_nil s height hne hlen
    have hoffset : (s.drawn height s.view pids).scrollOffset ≤
        (s.drawn height s.view pids).view.length := by
      rw [hstate]
      exact hle.trans hlt.le
    have hindices : ∀ i ∈ (s.drawn height s.view pids).view, i < xs.length := by
      rw [TuiState.view_drawn]
      exact hview
    have hwindow := renderTableWidget_eq hindices hoffset hdrawn
    obtain ⟨shown, hshown, hrows⟩ := Option.map_eq_some_iff.mp hwindow
    have hxs : ¬ xs.isEmpty := by
      intro hnil
      obtain ⟨i, hi⟩ := List.exists_mem_of_ne_nil _ hne
      have hlt := hview i hi
      rw [List.isEmpty_iff.mp hnil] at hlt
      exact Nat.not_lt_zero i hlt
    have hv : ¬ s.view.isEmpty := by simpa using hne
    have hrender : t.renderTable xs height s = some (s.drawn height s.view pids, .rows shown) := by
      rw [renderTable, if_neg hxs, if_neg hv]
      rw [TuiState.drawn, if_neg hv] at hshown ⊢
      simp only [hpids, Option.bind_some, hshown, Option.map_some]
    rw [hrender] at htable
    rw [← (Prod.mk.inj (Option.some.inj htable)).2, hrows, TuiState.viewPids_drawn hlen]

variable (t) in
/-- **What a frame shows.** -/
theorem render_depicts (xs : List α) (height : ℕ) (s : TuiState) :
    ∃ view pids frame, t.view xs s = some view ∧
      (view.mapM fun i => xs[i]?.map t.pid) = some pids ∧ pids.length = view.length ∧
      t.render xs height s = some (s.drawn height view pids, frame) ∧
      frame.Depicts (s.drawn height view pids) := by
  obtain ⟨view, hview, hlt⟩ := view_spec (t := t) xs s
  obtain ⟨pids, hpids, hlen, hget⟩ := t.exists_pids hlt
  obtain ⟨table, htable, hnil, hne⟩ :=
    renderTable_eq (t := t) (s := { s with view }) hlt height hpids hlen hget
  have hsame : ({ s with view } : TuiState).drawn height view pids = s.drawn height view pids := by
    unfold TuiState.drawn
    split <;> rfl
  rw [hsame] at htable hne
  have hdetail : t.renderDetail xs (s.drawn height view pids) =
      some (s.drawn height view pids).viewPids[(s.drawn height view pids).selected]? := by
    unfold renderDetail
    rw [TuiState.view_drawn, TuiState.viewPids_drawn hlen, hget]
    cases hidx : view[(s.drawn height view pids).selected]? with
    | none => rfl
    | some idx =>
      have hlt' := hlt idx (List.mem_of_getElem? hidx)
      simp [hlt']
  have hshow : (s.drawn height view pids).showDetail = s.showDetail :=
    congrArg Settings.showDetail (Session.settings_drawn s height view pids)
  refine ⟨view, pids, ⟨table, if s.showDetail then
    some (s.drawn height view pids).viewPids[(s.drawn height view pids).selected]? else none⟩,
    hview, hpids, hlen, ?_, ?_⟩
  · rw [render, hview, Option.bind_some, htable, Option.bind_some]
    simp only [hshow]
    split
    · rw [hdetail, Option.map_some]
    · rfl
  · rcases eq_or_ne view [] with rfl | hview'
    · -- Nothing is listed: the pane has a text, and there is no cursor.
      obtain rfl : pids = [] := List.length_eq_zero_iff.mp hlen
      rw [hnil rfl]
      refine ⟨iff_of_true rfl ⟨_, rfl⟩, rfl, fun hvis => absurd hvis (Nat.not_lt_zero 0), ?_⟩
      rw [hshow]
    · -- Something is listed: the cursor is in the window, if the window has any rows.
      obtain ⟨scrollOffset, hdrawn, hle, -, hwin⟩ := TuiState.drawn_of_ne_nil s height hview' hlen
      rw [hne hview']
      refine ⟨?_, ?_, fun hvis => ?_, ?_⟩
      · rw [TuiState.viewPids_drawn hlen, ← List.length_eq_zero_iff, hlen, List.length_eq_zero_iff]
        exact iff_of_false hview' (by simp [Table.window])
      · rw [Table.pids_window, TuiState.viewPids_drawn hlen]
      · rw [TuiState.viewPids_drawn hlen]
        rw [hdrawn] at hvis ⊢
        exact Table.highlighted_window pids hle (hwin hvis)
      · rw [hshow]

end Columns

/-- **What a frame shows**, of either list. -/
theorem render_depicts (snap : SnapshotData) (height : ℕ) (s : TuiState) :
    ∃ s' frame, render snap height s = some (s', frame) ∧ frame.Depicts s' := by
  unfold render
  cases s.viewMode with
  | live =>
    obtain ⟨view, pids, frame, -, -, -, hrender, hdepicts⟩ :=
      rowColumns.render_depicts snap.rows height s
    exact ⟨_, frame, hrender, hdepicts⟩
  | dead =>
    obtain ⟨view, pids, frame, -, -, -, hrender, hdepicts⟩ :=
      deadColumns.render_depicts snap.deadProcs height s
    exact ⟨_, frame, hrender, hdepicts⟩

/-! ### What leaves the lock alone -/

/-- An action that leaves the lock as it is. -/
def KeepsLock (s : TuiState) (r : Option Handled) : Prop :=
  ∀ handled, r = some handled → handled.state.selectedPid = s.selectedPid

/-- A key that shows the other table. -/
def TuiState.SwitchedBy (s : TuiState) (key : KeyEvent) : Prop :=
  s.activePane = .main ∧ key.code.lower = .char 'x'

section Lock

variable {s s' : TuiState} {key : KeyEvent}

theorem keepsLock_of_eq {action : Action} {sent : Option DaemonCommand}
    (h : s'.selectedPid = s.selectedPid) : KeepsLock s (some ⟨s', action, sent⟩) := by
  rintro handled heq
  obtain rfl := Option.some.inj heq
  exact h

theorem keepsLock_applySort (s : TuiState) (key : SortKey) : KeepsLock s (applySort s key) := by
  unfold applySort
  split
  · exact keepsLock_of_eq rfl
  · exact keepsLock_of_eq rfl

theorem keepsLock_filterInput (s : TuiState) (key : KeyEvent) :
    KeepsLock s (handleFilterInput s key) := by
  obtain ⟨code, control⟩ := key
  cases code <;> exact keepsLock_of_eq rfl

/-- The bindings of these tables are for nothing that has to do with the cursor. -/
theorem keepsLock_otherKeys (s : TuiState) :
    ∀ kb ∈ SORT_KEYS ++ UNIT_PICKER_KEYS ++ (QUIT_KEYS ++ HELP_KEYS ++ FILTER_KEYS),
      KeepsLock s (kb.action s) := by
  simp only [SORT_KEYS, UNIT_PICKER_KEYS, QUIT_KEYS, HELP_KEYS, FILTER_KEYS, List.cons_append,
    List.nil_append, List.forall_mem_cons]
  refine ⟨keepsLock_of_eq rfl, keepsLock_applySort s _, keepsLock_applySort s _,
    keepsLock_applySort s _, keepsLock_applySort s _, keepsLock_applySort s _, ?_,
    keepsLock_of_eq rfl, keepsLock_of_eq rfl, keepsLock_of_eq rfl, keepsLock_of_eq rfl,
    keepsLock_of_eq rfl, keepsLock_of_eq rfl, keepsLock_of_eq rfl, keepsLock_of_eq rfl,
    keepsLock_of_eq rfl, by simp⟩
  rintro handled h
  obtain ⟨unit, -, hunit⟩ := Option.bind_eq_some_iff.mp h
  obtain rfl := Option.some.inj hunit
  rfl

/-- Of the bindings of the tables, only the one for the other table releases the lock. -/
theorem keepsLock_mainKeys (s : TuiState) {code : KeyCode} (hcode : code ≠ .char 'x') :
    ∀ kb ∈ MAIN_KEYS, code ∈ kb.key.codes → KeepsLock s (kb.action s) := by
  simp only [MAIN_KEYS, List.forall_mem_cons]
  refine ⟨fun _ => keepsLock_of_eq rfl, fun _ => keepsLock_of_eq rfl, fun _ => keepsLock_of_eq rfl,
    fun _ => keepsLock_of_eq rfl, fun hx => absurd ?_ hcode, fun _ => keepsLock_of_eq rfl,
    fun _ => keepsLock_of_eq rfl, fun _ => keepsLock_of_eq rfl, fun _ => ?_, by simp⟩
  · simpa [KeySpec.codes] using hx
  · show KeepsLock s (if s.filterText.isEmpty then _ else _)
    split
    · exact keepsLock_of_eq rfl
    · exact keepsLock_of_eq rfl

/-- Outside the tables the arrow keys do not move their cursor. -/
theorem keepsLock_moveCursor (hpane : s.activePane ≠ .main) (isUp : Bool) :
    KeepsLock s (moveCursor s isUp) := by
  unfold moveCursor
  split
  case h_1 hmain => exact absurd hmain hpane
  case h_2 => exact keepsLock_of_eq rfl
  case h_3 => exact keepsLock_of_eq rfl

/-- The bindings of the tables are found in the main pane only. -/
theorem mem_keybinds_of_ne {pane : Pane} (hpane : pane ≠ .main) {kb : Keybind}
    (h : kb ∈ pane.keybinds.flatten) :
    kb ∈ NAVIGATION_KEYS ∨
      kb ∈ SORT_KEYS ++ UNIT_PICKER_KEYS ++ (QUIT_KEYS ++ HELP_KEYS ++ FILTER_KEYS) := by
  cases pane with
  | main => exact absurd rfl hpane
  | unit | help | filter =>
    simp only [Pane.keybinds, List.flatten_cons, List.flatten_nil, List.append_nil,
      List.mem_append] at h ⊢
    tauto

/-- **A key leaves the lock alone** that neither moves the cursor nor shows the other table. -/
theorem keepsLock_handleKey (hmoved : ¬ s.MovedBy key) (hswitched : ¬ s.SwitchedBy key) :
    KeepsLock s (handleKey s key) := by
  rcases handleKey_cases s key with hkey | hkey | ⟨kb, hmem, happlies, hkey⟩
  · rw [hkey]
    exact keepsLock_filterInput s key
  · rw [hkey]
    exact keepsLock_of_eq rfl
  · rw [hkey]
    have hother := keepsLock_otherKeys s kb
    by_cases hpane : s.activePane = .main
    · -- The arrow keys are excluded, and so is the key for the other table.
      have hcode : key.code.lower ≠ .char 'x' := fun hx => hswitched ⟨hpane, hx⟩
      rw [hpane] at hmem
      simp only [Pane.keybinds, List.flatten_cons, List.flatten_nil, List.append_nil,
        List.mem_append] at hmem hother
      rcases hmem with hmem | hmem | hmem | hmem
      · exact hother (Or.inl (Or.inl hmem))
      · exact absurd ⟨hpane, List.any_eq_true.mpr ⟨kb, hmem, happlies⟩⟩ hmoved
      · exact keepsLock_mainKeys s hcode kb hmem ((kb.applies_iff key).mp happlies).1
      · exact hother (Or.inr (Or.inl (Or.inl hmem)))
    · -- Elsewhere the arrow keys have another cursor, or none.
      rcases mem_keybinds_of_ne hpane hmem with hmem | hmem
      · simp only [NAVIGATION_KEYS, List.mem_cons, List.not_mem_nil, or_false] at hmem
        rcases hmem with rfl | rfl | rfl | rfl <;> exact keepsLock_moveCursor hpane _
      · exact hother hmem

end Lock

/-! ### Following a process -/

namespace TuiState

variable {s : TuiState} {height : ℕ} {view : List ℕ} {pids : List UInt32} {pid : UInt32}

/-- A frame keeps the lock or releases it. -/
theorem selectedPid_drawn_cases (hlen : pids.length = view.length) :
    (s.drawn height view pids).selectedPid = s.selectedPid ∨
      (s.drawn height view pids).selectedPid = none := by
  rcases eq_or_ne view [] with rfl | hview
  · exact Or.inl rfl
  · obtain ⟨scrollOffset, hdrawn, -⟩ := drawn_of_ne_nil s height hview hlen
    rw [hdrawn]
    show (resolveCursor s.selectedPid pids).2 = s.selectedPid ∨ _
    cases s.selectedPid with
    | none => exact Or.inl rfl
    | some pid => cases hfind : pids.findIdx? (· = pid) <;> simp [resolveCursor, hfind]

/-- **A frame keeps the lock** exactly if it shows the process, or nothing at all. -/
theorem locked_drawn_iff (hlen : pids.length = view.length) (hlocked : s.selectedPid = some pid) :
    (s.drawn height view pids).selectedPid = some pid ↔ pid ∈ pids ∨ pids = [] := by
  by_cases hmem : pid ∈ pids
  · exact iff_of_true (lock_drawn hlen hlocked hmem).1 (Or.inl hmem)
  · -- Without the process, a frame releases the lock unless it is empty.
    have hreleased : (s.drawn height view pids).selectedPid = none ↔ pids ≠ [] :=
      released_drawn_iff hlen hlocked hmem
    have hcases : (s.drawn height view pids).selectedPid = s.selectedPid ∨
        (s.drawn height view pids).selectedPid = none := selectedPid_drawn_cases hlen
    rw [or_iff_right hmem]
    rcases hcases with hsame | hnone
    · rw [hsame, hlocked] at hreleased ⊢
      simpa using hreleased
    · rw [hnone] at hreleased ⊢
      simpa using hreleased

end TuiState

namespace Session

variable {c c' : Session} {l : SessionStep} {pid : UInt32}

/-- The user leaves the cursor where it is. -/
def LeavesCursor (c : Session) : SessionStep → Prop
  | .event (some key) => ¬ c.state.MovedBy key ∧ ¬ c.state.SwitchedBy key
  | .event none | .recv _ | .draw _ | .fail => True

/-- A frame shows a process, or nothing at all. -/
def ShowsOrEmpty (pid : UInt32) (c : Session) : SessionStep → Prop
  | .draw _ => pid ∈ passingPids c.snap c.state ∨ passingPids c.snap c.state = []
  | .event _ | .recv _ | .fail => True

/-- What drawing a frame leaves. -/
theorem exists_drawn {height : ℕ} (h : c.step (.draw height) = some c') :
    ∃ view pids, pids.length = view.length ∧ pids.Perm (passingPids c.snap c.state) ∧
      c'.state = c.state.drawn height view pids := by
  obtain ⟨phase, -, rfl⟩ := eq_draw_of_step h
  obtain ⟨view, pids, hlen, hperm, hdraw⟩ := exists_draw c height phase
  exact ⟨view, pids, hlen, hperm, by rw [hdraw]⟩

/-- What the frame that is drawn shows. -/
theorem depicts_of_draw {height : ℕ} (h : c.step (.draw height) = some c') :
    ∃ frame, render c.snap height c.state = some (c'.state, frame) ∧ frame.Depicts c'.state := by
  obtain ⟨phase, -, rfl⟩ := eq_draw_of_step h
  obtain ⟨s', frame, hrender, hdepicts⟩ := render_depicts c.snap height c.state
  have hstate : (c.draw height phase).state = s' := by
    rw [draw, hrender]
  exact ⟨frame, by rw [hstate, hrender], by rwa [hstate]⟩

/-- The step lemma: the lock is kept, or released by a frame. -/
theorem locked_step (pid : UInt32) (hl : c.LeavesCursor l) (h : c.step l = some c') :
    (c'.state.selectedPid = c.state.selectedPid ∨ c'.state.selectedPid = none) ∧
      (c.state.selectedPid = some pid →
        (c'.state.selectedPid = some pid ↔ ShowsOrEmpty pid c l)) := by
  rcases step_cases h with ⟨snap, rfl, rfl | rfl⟩ | ⟨height, phase, rfl, -, rfl⟩ |
    ⟨key, handled, phase, rfl, hhandled, -, rfl⟩ | ⟨key, rfl, -, rfl⟩ | ⟨phase, rfl | rfl, -, rfl⟩
  · exact ⟨Or.inl rfl, fun hlocked => iff_of_true hlocked trivial⟩
  · exact ⟨Or.inl rfl, fun hlocked => iff_of_true hlocked trivial⟩
  · obtain ⟨view, pids, hlen, hperm, hdraw⟩ := exists_draw c height phase
    rw [hdraw]
    refine ⟨TuiState.selectedPid_drawn_cases hlen, fun hlocked => ?_⟩
    have hempty : pids = [] ↔ passingPids c.snap c.state = [] := by
      rw [← List.length_eq_zero_iff, ← List.length_eq_zero_iff, hperm.length_eq]
    rw [ShowsOrEmpty, ← hperm.mem_iff, ← hempty]
    exact TuiState.locked_drawn_iff hlen hlocked
  · have hsame : handled.state.selectedPid = c.state.selectedPid :=
      keepsLock_handleKey hl.1 hl.2 handled hhandled
    exact ⟨Or.inl hsame, fun hlocked => iff_of_true (hsame.trans hlocked) trivial⟩
  · exact ⟨Or.inl rfl, fun hlocked => iff_of_true hlocked trivial⟩
  · exact ⟨Or.inl rfl, fun hlocked => iff_of_true hlocked trivial⟩
  · exact ⟨Or.inl rfl, fun hlocked => iff_of_true hlocked trivial⟩

/-- **When the cursor stays locked onto a process** that the user has left it on: exactly if every
frame shows the process, or nothing at all. -/
theorem locked_exec_iff {ls : List SessionStep} (h : exec step c ls = some c')
    (hlocked : c.state.selectedPid = some pid) (hleaves : Meets step LeavesCursor c ls) :
    c'.state.selectedPid = some pid ↔ Meets step (ShowsOrEmpty pid) c ls := by
  refine exec_good_iff_meets_of_meets (D := LeavesCursor)
    (G := fun c => c.state.selectedPid = some pid) ?_ ?_ hleaves hlocked h
  · rintro c l c' hl hc hstep
    exact (locked_step pid hl hstep).2 hc
  · -- A cursor that has been let go of is not locked again.
    rintro c l c' hl hc hstep hc'
    rcases (locked_step pid hl hstep).1 with hsame | hnone
    · exact hc (hsame.symm.trans hc')
    · cases hnone.symm.trans hc'

end Session

/-- **What every frame of a session shows**, in whatever state it is drawn: a part of the pids of
the entries that pass the filter, in the order of the view, with one row highlighted, which is in
the part shown and whose process is in the detail pane; and a text exactly if no entry passes. -/
theorem frames_depict {c c' : Session} {height : ℕ} (hdraw : c.step (.draw height) = some c') :
    ∃ frame, render c.snap height c.state = some (c'.state, frame) ∧ frame.Depicts c'.state ∧
      c'.state.viewPids.Perm (passingPids c.snap c.state) ∧
      (c'.state.viewPids ≠ [] → 0 < c'.state.visibleRows →
        ∃ pid, frame.table.highlighted = [pid] ∧ pid ∈ frame.table.pids) := by
  obtain ⟨frame, hrender, hdepicts⟩ := Session.depicts_of_draw hdraw
  obtain ⟨view, pids, hlen, hperm, hstate⟩ := Session.exists_drawn hdraw
  have hpids : c'.state.viewPids = pids := by rw [hstate, TuiState.viewPids_drawn hlen]
  refine ⟨frame, hrender, hdepicts, hpids ▸ hperm, fun hne hvis => ?_⟩
  have hview : view ≠ [] := by
    rintro rfl
    exact hne (hpids.trans (List.length_eq_zero_iff.mp hlen))
  obtain ⟨scrollOffset, hdrawn, -, hlt, -⟩ :=
    TuiState.drawn_of_ne_nil c.state height hview hlen
  have hselected : c'.state.selected < pids.length := by
    rw [hstate, hdrawn, hlen]
    exact hlt
  have hhighlighted := hdepicts.highlighted hvis
  rw [hpids, List.getElem?_eq_getElem hselected] at hhighlighted
  exact ⟨_, hhighlighted, frame.table.highlighted_subset (by simp [hhighlighted])⟩

/-- The cursor is moved onto a process, the detail pane is opened, and two processes start. -/
def followingSession : List SessionStep :=
  [.recv ⟨1000, 1, [quietRow 7 "curl" 5, quietRow 9 "ssh" 3, quietRow 8 "dig" 4], []⟩, .draw 5,
    .event (some ⟨.char 'j', false⟩), .draw 5, .draw 5, .event (some ⟨.char 'd', false⟩), .draw 5,
    .recv ⟨1000, 2, [quietRow 5 "wget" 5, quietRow 7 "curl" 5, quietRow 9 "ssh" 3,
      quietRow 8 "dig" 4, quietRow 6 "sshd" 1], []⟩]

theorem frames_depict_following :
    ∃ (c c' : Session) (frame : Frame), exec Session.step .new followingSession = some c ∧
      c.step (.draw 5) = some c' ∧ c'.state.viewPids = [5, 6, 9, 8, 7] ∧ frame.Depicts c'.state ∧
      ∃ pid, frame.table.highlighted = [pid] ∧ pid ∈ frame.table.pids := by
  obtain ⟨c', hc', hp⟩ := exists_exec_of_any Session.step .new (followingSession ++ [.draw 5])
    (fun c => c.state.viewPids = [5, 6, 9, 8, 7] ∧ c.state.visibleRows = 2) (by decide +kernel)
  obtain ⟨hpids, hvis⟩ := of_decide_eq_true hp
  obtain ⟨c, hc, hdraw⟩ := exec_append_eq_some.mp hc'
  rw [exec_singleton] at hdraw
  obtain ⟨frame, -, hdepicts, -, hrow⟩ := frames_depict hdraw
  exact ⟨c, c', frame, hc, hdraw, hpids, hdepicts, hrow (by simp [hpids]) (by simp [hvis])⟩

end Procnet
