import Procnet.Daemon.Sends
import Procnet.Tui.Order
import Procnet.Tui.Scroll

/-!
# Where a press of an arrow key takes the cursor

`move_cursor` of `procnet/src/tui/input.rs` stores the row that the cursor is moved onto, and the
pid that the last frame had in this row. The next frame keeps the pid only, and looks for the first
row that has it. The two agree where the pids in the view tell its rows apart.

The collector keeps the pids of the running processes distinct, so they do in the Live view. The
dead list keeps every process that has died, up to a limit, and a pid that is reused can be there
several times: then the cursor jumps back to the first of these rows, and never gets past it.

`cursor_lands_iff` is exact for a single press, and says that presses reach every row of the view
exactly when the entries in it have distinct pids; `cursor_stuck` is a dead list that the daemon
sends in which they do not.
-/

namespace Procnet

open Lib

/-! ### Views and their pids -/

namespace Columns

variable {α : Type} (t : Columns α)

/-- The view of a list, and its pids. -/
def viewPids (xs : List α) (s : TuiState) : Option (List ℕ × List UInt32) :=
  (t.view xs s).bind fun view =>
    (view.mapM fun i => xs[i]?.map t.pid).map fun pids => (view, pids)

/-- **What a frame leaves**: the view, and the pids of the entries that pass the filter. -/
theorem render_eq_drawn (xs : List α) (height : ℕ) (s : TuiState) :
    ∃ view pids frame, t.viewPids xs s = some (view, pids) ∧ pids.length = view.length ∧
      pids.Perm ((xs.filter (t.passes s)).map t.pid) ∧
      t.render xs height s = some (s.drawn height view pids, frame) := by
  obtain ⟨view, pids, frame, hview, hpids, hrender⟩ := t.render_eq xs height s
  obtain ⟨l, hl, hperm, -⟩ := exists_view (t := t) xs s
  obtain rfl := Option.some.inj (hl.symm.trans hview)
  have hread : ((l.map Prod.fst).mapM fun i => xs[i]?.map t.pid) =
      some (l.map fun p => t.pid p.2) := by
    rw [List.mapM_map]
    refine mapM_eq_some_map fun p hp => ?_
    rw [Function.comp_apply, mem_entries.mp (List.mem_filter.mp (hperm.mem_iff.mp hp)).1]
    rfl
  obtain rfl := Option.some.inj (hread.symm.trans hpids)
  refine ⟨l.map Prod.fst, l.map fun p => t.pid p.2, frame, ?_, by simp, ?_, hrender⟩
  · rw [viewPids, hview, Option.bind_some, hpids, Option.map_some]
  · have hsnd : ((entries xs).filter fun p => t.passes s p.2).map (fun p => t.pid p.2) =
        (xs.filter (t.passes s)).map t.pid := by
      conv_rhs => rw [← map_snd_entries xs, List.filter_map, List.map_map]
      rfl
    exact hsnd ▸ hperm.map fun p => t.pid p.2

end Columns

/-- The view of the list shown, and its pids. -/
def viewOf (snap : SnapshotData) (s : TuiState) : Option (List ℕ × List UInt32) :=
  match s.viewMode with
  | .live => rowColumns.viewPids snap.rows s
  | .dead => deadColumns.viewPids snap.deadProcs s

/-- The pids of the entries of the list shown that pass the filter. -/
def passingPids (snap : SnapshotData) (s : TuiState) : List UInt32 :=
  match s.viewMode with
  | .live => (snap.rows.filter (rowColumns.passes s)).map StatsRow.pid
  | .dead => (snap.deadProcs.filter (deadColumns.passes s)).map ProcInfo.pid

/-- **What a frame leaves**, of either list. -/
theorem render_eq_drawn (snap : SnapshotData) (height : ℕ) (s : TuiState) :
    ∃ view pids frame, viewOf snap s = some (view, pids) ∧ pids.length = view.length ∧
      pids.Perm (passingPids snap s) ∧
      render snap height s = some (s.drawn height view pids, frame) := by
  unfold viewOf passingPids render
  cases s.viewMode with
  | live => exact rowColumns.render_eq_drawn snap.rows height s
  | dead => exact deadColumns.render_eq_drawn snap.deadProcs height s

/-- A frame does not change what the next one shows. -/
theorem viewOf_drawn (snap : SnapshotData) (s : TuiState) (height : ℕ) (view : List ℕ)
    (pids : List UInt32) : viewOf snap (s.drawn height view pids) = viewOf snap s := by
  unfold TuiState.drawn
  split <;> rfl

theorem passingPids_drawn (snap : SnapshotData) (s : TuiState) (height : ℕ) (view : List ℕ)
    (pids : List UInt32) : passingPids snap (s.drawn height view pids) = passingPids snap s := by
  unfold TuiState.drawn
  split <;> rfl

/-! ### The first row of a pid -/

/-- No row above has the same pid. -/
def FirstAt (pids : List UInt32) (k : ℕ) : Prop := ∀ j < k, pids[j]? ≠ pids[k]?

/-- **A frame puts the cursor on the first row of a pid.** -/
theorem firstAt_resolveCursor (locked : Option UInt32) (pids : List UInt32) :
    FirstAt pids (resolveCursor locked pids).1 := by
  have htop : FirstAt pids 0 := fun j hj => absurd hj (Nat.not_lt_zero j)
  cases locked with
  | none => exact htop
  | some pid =>
    cases hfind : pids.findIdx? (· = pid) with
    | none =>
      rw [resolveCursor, Option.bind_some, hfind]
      exact htop
    | some i =>
      rw [resolveCursor, Option.bind_some, hfind]
      obtain ⟨hlt, hi, hbefore⟩ := List.findIdx?_eq_some_iff_getElem.mp hfind
      show FirstAt pids i
      intro j hj heq
      have hj' : j < pids.length := Nat.lt_trans hj hlt
      rw [List.getElem?_eq_getElem hlt, List.getElem?_eq_getElem hj'] at heq
      have hno := hbefore j hj
      rw [Option.some.inj heq] at hno
      exact hno hi

/-- **The frame after a move** finds the row that the cursor was moved onto exactly if it is the
first one of its pid. -/
theorem resolveCursor_getElem?_iff {pids : List UInt32} {k : ℕ} (hk : k < pids.length) :
    (resolveCursor pids[k]? pids).1 = k ↔ FirstAt pids k := by
  obtain ⟨i, q, hresolve, -, hpid, hlock⟩ :=
    resolveCursor_spec pids[k]? (List.ne_nil_of_length_pos (Nat.zero_lt_of_lt hk))
  have hfirst := firstAt_resolveCursor pids[k]? pids
  rw [hresolve] at hfirst ⊢
  have hget : pids[k]? = some (pids.get ⟨k, hk⟩) := List.getElem?_eq_getElem hk
  have hi : pids[i]? = pids[k]? := by
    rw [hget]
    exact hpid _ (hlock _ hget (List.get_mem ..))
  constructor
  · rintro rfl
    exact hfirst
  · intro hfirst'
    rcases Nat.lt_trichotomy i k with hlt | heq | hgt
    · exact absurd hi (hfirst' i hlt)
    · exact heq
    · exact absurd hi.symm (hfirst k hgt)

theorem nodup_iff_firstAt {pids : List UInt32} :
    pids.Nodup ↔ ∀ k < pids.length, FirstAt pids k := by
  rw [List.nodup_iff_getElem?_ne_getElem?]
  constructor
  · intro h k hk j hj
    exact h j k hj hk
  · intro h j k hj hk
    exact h k hk j hj

/-! ### A press and the frame after it -/

/-- An arrow key is pressed, up or down, and the same snapshot is drawn again, at some height. -/
def press (snap : SnapshotData) (s : TuiState) (p : Bool × ℕ) : Option TuiState :=
  (handleKey s ⟨if p.1 then .up else .down, false⟩).bind fun handled =>
    (render snap p.2 handled.state).map Prod.fst

theorem handleKey_arrow {s : TuiState} (hpane : s.activePane = .main) (isUp : Bool) :
    handleKey s ⟨if isUp then .up else .down, false⟩ = moveCursor s isUp := by
  unfold handleKey
  rw [hpane]
  cases isUp <;> rfl

/-- **What a frame of a view that is not empty leaves**, in the main pane. -/
structure Framed (snap : SnapshotData) (s : TuiState) : Prop where
  pane : s.activePane = .main
  view : viewOf snap s = some (s.view, s.viewPids)
  nonempty : s.view ≠ []
  length : s.viewPids.length = s.view.length
  pids : s.viewPids.Perm (passingPids snap s)
  selected : s.selected < s.view.length
  first : FirstAt s.viewPids s.selected

section Press

variable {snap : SnapshotData} {s s' : TuiState}

theorem framed_of_render {height : ℕ} {s₀ : TuiState} {frame : Frame}
    (h : render snap height s₀ = some (s, frame)) (hpane : s.activePane = .main)
    (hview : s.view ≠ []) : Framed snap s := by
  obtain ⟨view, pids, frame', hviewOf, hlen, hperm, hrender⟩ := render_eq_drawn snap height s₀
  obtain ⟨rfl, -⟩ := Prod.mk.inj (Option.some.inj (hrender.symm.trans h))
  have hne : view ≠ [] := by rwa [TuiState.view_drawn] at hview
  have hpids : (s₀.drawn height view pids).viewPids = pids := TuiState.viewPids_drawn hlen
  obtain ⟨scrollOffset, hdrawn, -, hlt, -⟩ :=
    TuiState.drawn_of_ne_nil s₀ height hne hlen
  have hselected : (s₀.drawn height view pids).selected =
      (resolveCursor s₀.selectedPid pids).1 := by rw [hdrawn]
  refine ⟨hpane, ?_, hview, ?_, ?_, ?_, ?_⟩
  · rw [viewOf_drawn, TuiState.view_drawn, hpids]
    exact hviewOf
  · rw [hpids, TuiState.view_drawn]
    exact hlen
  · rw [hpids, passingPids_drawn]
    exact hperm
  · rw [hselected, TuiState.view_drawn]
    exact hlt
  · rw [hpids, hselected]
    exact firstAt_resolveCursor s₀.selectedPid pids

theorem Framed.nextRow_lt (h : Framed snap s) (isUp : Bool) : s.nextRow isUp < s.view.length := by
  have hlt := h.selected
  unfold TuiState.nextRow
  split <;> omega

/-- The cursor is moved onto a row of the view, which needs no clamping. -/
theorem Framed.moved (h : Framed snap s) (isUp : Bool) :
    (s.moved isUp).selectedPid = s.viewPids[s.nextRow isUp]? := by
  obtain ⟨row, scrollOffset, hclamp, -, hsame, -, -⟩ := clampScroll_spec (s.nextRow isUp)
    s.scrollOffset s.visibleRows (List.length_pos_iff.mpr h.nonempty)
  obtain rfl := hsame (h.nextRow_lt isUp)
  rw [TuiState.moved, hclamp]

/-- **The step lemma**: a press moves the cursor as it should exactly if it moves it onto the first
row of a pid; the view stays. -/
theorem Framed.press (h : Framed snap s) (isUp : Bool) (height : ℕ) :
    ∃ s', press snap s (isUp, height) = some s' ∧ Framed snap s' ∧ s'.view = s.view ∧
      s'.viewPids = s.viewPids ∧
      (s'.selected = s.nextRow isUp ↔ FirstAt s.viewPids (s.nextRow isUp)) := by
  obtain ⟨view, pids, frame, hviewOf, hlen, -, hrender⟩ :=
    render_eq_drawn snap height (s.moved isUp)
  -- Moving the cursor has no influence on the view.
  have hsame : viewOf snap (s.moved isUp) = viewOf snap s := rfl
  obtain ⟨rfl, rfl⟩ := Prod.mk.inj (Option.some.inj (hviewOf.symm.trans (hsame.trans h.view)))
  obtain ⟨scrollOffset, hdrawn, -⟩ :=
    TuiState.drawn_of_ne_nil (s.moved isUp) height h.nonempty hlen
  have hpress : Procnet.press snap s (isUp, height) =
      some ((s.moved isUp).drawn height s.view s.viewPids) := by
    rw [Procnet.press, handleKey_arrow h.pane, moveCursor_main h.pane h.nonempty]
    show (render snap height (s.moved isUp)).map Prod.fst = _
    rw [hrender]
    rfl
  refine ⟨_, hpress, framed_of_render hrender ?_ ?_, TuiState.view_drawn,
    TuiState.viewPids_drawn hlen, ?_⟩
  · rw [hdrawn]
    exact h.pane
  · rw [TuiState.view_drawn]
    exact h.nonempty
  · rw [hdrawn, h.moved]
    exact resolveCursor_getElem?_iff (h.length ▸ h.nextRow_lt isUp)

/-- The run lemma: presses keep the view. -/
theorem Framed.presses (h : Framed snap s) {ps : List (Bool × ℕ)}
    (hps : exec (Procnet.press snap) s ps = some s') :
    Framed snap s' ∧ s'.view = s.view ∧ s'.viewPids = s.viewPids := by
  refine exec_invariant (I := fun u => Framed snap u ∧ u.view = s.view ∧ u.viewPids = s.viewPids)
    ?_ ⟨h, rfl, rfl⟩ hps
  rintro u ⟨isUp, height⟩ u' ⟨hu, hview, hpids⟩ hstep
  obtain ⟨u'', hu'', hframed, hview', hpids', -⟩ := hu.press isUp height
  obtain rfl := Option.some.inj (hu''.symm.trans hstep)
  exact ⟨hframed, hview'.trans hview, hpids'.trans hpids⟩

/-- **Presses in one direction** move the cursor row by row, where the pids are distinct. -/
theorem Framed.replicate (h : Framed snap s) (hnodup : s.viewPids.Nodup) (isUp : Bool)
    (height n : ℕ) (hn : isUp = false → s.selected + n < s.view.length) :
    ∃ s', exec (Procnet.press snap) s (List.replicate n (isUp, height)) = some s' ∧
      s'.selected = if isUp then s.selected - n else s.selected + n := by
  induction n generalizing s with
  | zero => exact ⟨s, rfl, by simp⟩
  | succ n ih =>
    obtain ⟨u, hu, hframed, hview, hpids, hlands⟩ := h.press isUp height
    have hfirst : FirstAt s.viewPids (s.nextRow isUp) :=
      nodup_iff_firstAt.mp hnodup _ (h.length ▸ h.nextRow_lt isUp)
    have hnext := hlands.mpr hfirst
    have hrow : u.selected = if isUp then s.selected - 1 else s.selected + 1 := by
      rw [hnext, TuiState.nextRow]
      cases isUp with
      | true => rfl
      | false =>
        have hlt := hn rfl
        show min (s.selected + 1) (s.view.length - 1) = s.selected + 1
        omega
    obtain ⟨s', hs', hselected⟩ := ih hframed (hpids ▸ hnodup) (by
      rintro rfl
      have hlt := hn rfl
      rw [hview, hrow]
      show s.selected + 1 + n < s.view.length
      omega)
    refine ⟨s', exec_cons_eq_some.mpr ⟨u, hu, hs'⟩, ?_⟩
    rw [hselected, hrow]
    cases isUp with
    | true =>
      show s.selected - 1 - n = s.selected - (n + 1)
      omega
    | false =>
      show s.selected + 1 + n = s.selected + (n + 1)
      omega

/-- **Which rows presses reach**: all of them, exactly if the pids are distinct. -/
theorem Framed.reaches_iff (h : Framed snap s) :
    (∀ k < s.view.length, ∃ ps s', exec (Procnet.press snap) s ps = some s' ∧ s'.selected = k) ↔
      s.viewPids.Nodup := by
  constructor
  · intro hreach
    rw [nodup_iff_firstAt]
    intro k hk
    obtain ⟨ps, s', hps, rfl⟩ := hreach k (h.length ▸ hk)
    obtain ⟨hframed, -, hpids⟩ := h.presses hps
    exact hpids ▸ hframed.first
  · intro hnodup k hk
    rcases Nat.le_total s.selected k with hle | hle
    · obtain ⟨s', hs', hselected⟩ := h.replicate hnodup false 0 (k - s.selected) fun _ => by omega
      refine ⟨_, s', hs', hselected.trans ?_⟩
      show s.selected + (k - s.selected) = k
      omega
    · obtain ⟨s', hs', hselected⟩ := h.replicate hnodup true 0 (s.selected - k) nofun
      refine ⟨_, s', hs', hselected.trans ?_⟩
      show s.selected - (s.selected - k) = k
      omega

end Press

/-- **When a press of an arrow key moves the cursor where the user sees it**, in a state that a
frame of a view that is not empty has left: exactly if no row above the one it is moved onto has
the same pid. Presses reach every row exactly if the entries that pass the filter have distinct
pids. The rows of a snapshot that the daemon sends do. -/
theorem cursor_lands_iff {snap : SnapshotData} {height : ℕ} {s₀ s : TuiState} {frame : Frame}
    (hrender : render snap height s₀ = some (s, frame)) (hpane : s.activePane = .main)
    (hview : s.view ≠ []) :
    (∀ isUp height', ∃ s', press snap s (isUp, height') = some s' ∧
      (s'.selected = s.nextRow isUp ↔ FirstAt s.viewPids (s.nextRow isUp))) ∧
    ((∀ k < s.view.length, ∃ ps s', exec (press snap) s ps = some s' ∧ s'.selected = k) ↔
      (passingPids snap s).Nodup) ∧
    ∀ e, Daemon.Sends e snap → s.viewMode = .live → (passingPids snap s).Nodup := by
  have hframed := framed_of_render hrender hpane hview
  refine ⟨fun isUp height' => ?_, ?_, ?_⟩
  · obtain ⟨s', hs', -, -, -, hlands⟩ := hframed.press isUp height'
    exact ⟨s', hs', hlands⟩
  · rw [hframed.reaches_iff, hframed.pids.nodup_iff]
  · intro e hsends hmode
    have hsub : (snap.rows.filter (rowColumns.passes s)).Sublist snap.rows := List.filter_sublist
    rw [passingPids, hmode]
    exact hsends.nodup_rows.sublist (hsub.map StatsRow.pid)

/-- A frame on a fixed input, by evaluation. -/
theorem exists_render_of_any (snap : SnapshotData) (height : ℕ) (s : TuiState) (p : TuiState → Bool)
    (h : (render snap height s).any (fun r => p r.1) = true) :
    ∃ s' frame, render snap height s = some (s', frame) ∧ p s' = true := by
  obtain ⟨⟨s', frame⟩, hrender, hp⟩ := (Option.any_eq_true _ _).mp h
  exact ⟨s', frame, hrender, hp⟩

/-- Two running processes. -/
def twoRows : SnapshotData :=
  ⟨1000, 1, [⟨7, "curl", default, default, default, default⟩,
    ⟨9, "ssh", default, default, default, default⟩], []⟩

/-- The cursor is on the first row, and a press takes it to the second one. -/
theorem cursor_lands_two_rows :
    ∃ s frame s', render twoRows 10 .new = some (s, frame) ∧ s.selected = 0 ∧
      press twoRows s (false, 10) = some s' ∧ s'.selected = 1 := by
  obtain ⟨s, frame, hrender, hp⟩ := exists_render_of_any twoRows 10 .new
    (fun s => s.activePane = .main ∧ s.view = [1, 0] ∧ s.viewPids = [9, 7] ∧ s.selected = 0)
    (by decide +kernel)
  obtain ⟨hpane, hview, hpids, hselected⟩ := of_decide_eq_true hp
  obtain ⟨s', hs', hlands⟩ := (cursor_lands_iff hrender hpane (by simp [hview])).1 false 10
  have hnext : s.nextRow false = 1 := by simp [TuiState.nextRow, hview, hselected]
  refine ⟨s, frame, s', hrender, hselected, hs', hnext ▸ hlands.mpr ?_⟩
  rw [hnext, hpids]
  rintro (_ | j) hj
  · decide
  · omega

/-- A process dies, its pid is reused, and the new process dies. -/
def reusedTwice : List Step :=
  [.tick (some [⟨7, "curl"⟩]) (firstPids 8), .tick (some []) (firstPids 0),
    .tick (some [⟨7, "wget"⟩]) (firstPids 8)]

/-- What the daemon sends then. -/
def bothDead : SnapshotData :=
  ⟨1000, 4, [], [⟨7, "curl", default, default⟩, ⟨7, "wget", default, default⟩]⟩

theorem sends_bothDead : Daemon.Sends .little bothDead := by
  obtain ⟨d, hd, hp⟩ := exists_exec_of_any (Daemon.step .little) .new reusedTwice
    (fun d => d.exit = none ∧ d.poisoned = false ∧
      (writeMsg SnapshotRef.serialize d.buf (d.snapshot .little [] (firstPids 0))).2 = .ok () ∧
      bothDead = (d.snapshot .little [] (firstPids 0)).toData) (by decide +kernel)
  exact ⟨reusedTwice, d, [], firstPids 0, hd, of_decide_eq_true hp⟩

/-- **The cursor is stuck**: in the list of the two dead processes, a press takes it from the first
row to the first row, and no presses take it to the second one. -/
theorem cursor_stuck :
    Daemon.Sends .little bothDead ∧ ∃ s frame s',
      render bothDead 10 { TuiState.new with viewMode := .dead } = some (s, frame) ∧
      s.activePane = .main ∧ s.view.length = 2 ∧ s.selected = 0 ∧
      press bothDead s (false, 10) = some s' ∧
        s'.selected ≠ min (s.selected + 1) (s.view.length - 1) ∧
      ∀ ps u, exec (press bothDead) s ps = some u → u.selected ≠ 1 := by
  obtain ⟨s, frame, hrender, hp⟩ := exists_render_of_any bothDead 10
    { TuiState.new with viewMode := .dead }
    (fun s => s.activePane = .main ∧ s.view = [1, 0] ∧ s.viewPids = [7, 7] ∧ s.selected = 0)
    (by decide +kernel)
  obtain ⟨hpane, hview, hpids, hselected⟩ := of_decide_eq_true hp
  have hframed := framed_of_render hrender hpane (by simp [hview])
  have hnot : ¬ FirstAt s.viewPids 1 := by
    rw [hpids]
    exact fun h => h 0 Nat.one_pos rfl
  have hnext : s.nextRow false = 1 := by simp [TuiState.nextRow, hview, hselected]
  obtain ⟨s', hs', -, -, -, hlands⟩ := hframed.press false 10
  refine ⟨sends_bothDead, s, frame, s', hrender, hpane, by simp [hview], hselected, hs', ?_, ?_⟩
  · show s'.selected ≠ s.nextRow false
    rw [Ne, hlands, hnext]
    exact hnot
  · intro ps u hps hrow
    obtain ⟨hu, -, hpids'⟩ := hframed.presses hps
    exact hnot (hpids' ▸ hrow ▸ hu.first)

end Procnet
