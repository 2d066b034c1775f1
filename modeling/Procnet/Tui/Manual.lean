import Procnet.Tui.Lock

/-!
# What the keys mean

The bindings of `procnet/src/tui/keys.rs` are tables, searched group by group when a key is pressed,
and the prompt of the filter is handled apart from them. `Settings.press` says in one place what a
key is for: what it changes of the settings, which are the part of the state that no frame touches,
or that it ends the client. It is what a manual of the client would say.

No binding of a pane hides another one (`disjoint_keybinds`), so the order of the tables does not
matter; and a session of the client is a run of the manual (`session_follows_manual`): frames, their
heights and timeouts leave no trace in it. What the next frame lists is thus given by the keys and
the snapshots alone.
-/

namespace Procnet

open Lib

/-! ### Which binding a key finds -/

/-- A key without its case. -/
def KeyCode.lower : KeyCode → KeyCode
  | .char c => .char c.toLower
  | code => code

/-- The keys that a binding is for. -/
def KeySpec.codes : KeySpec → List KeyCode
  | .chars cs => cs.toList.map .char
  | .ctrl c => [.char c]
  | .up => [.up]
  | .down => [.down]
  | .enter => [.enter]
  | .esc => [.esc]
  | .backspace => [.backspace]
  | .tab => [.tab]

theorem keyMatches_iff (spec : KeySpec) (code : KeyCode) :
    keyMatches spec code ↔ code.lower ∈ spec.codes := by
  unfold keyMatches
  cases spec with
  | chars cs => cases code <;> simp [KeySpec.codes, KeyCode.lower]
  | ctrl c =>
    cases code with
    | char ch => simp [KeySpec.codes, KeyCode.lower, eq_comm]
    | up | down | enter | esc | backspace | tab | other => simp [KeySpec.codes, KeyCode.lower]
  | up | down | enter | esc | backspace | tab =>
    cases code <;> simp [KeySpec.codes, KeyCode.lower]

theorem Keybind.applies_iff (kb : Keybind) (key : KeyEvent) :
    kb.applies key ↔ key.code.lower ∈ kb.key.codes ∧ (∀ c, kb.key = .ctrl c → key.control) := by
  unfold Keybind.applies
  cases hkey : kb.key <;> simp [keyMatches_iff, and_comm]

/-- **No binding of a pane hides another one**: they are for different keys. -/
theorem disjoint_keybinds (pane : Pane) :
    (pane.keybinds.flatten.map fun kb => kb.key.codes).Pairwise fun codes codes' =>
      ∀ code ∈ codes, code ∉ codes' := by
  cases pane <;> decide +kernel

theorem exclusive_keybinds (pane : Pane) (key : KeyEvent) :
    pane.keybinds.flatten.Pairwise fun a b => ¬ (a.applies key ∧ b.applies key) := by
  refine (List.pairwise_map.mp (disjoint_keybinds pane)).imp ?_
  rintro a b hdisj ⟨ha, hb⟩
  exact hdisj _ ((a.applies_iff key).mp ha).1 ((b.applies_iff key).mp hb).1

theorem handleKey_of_mem {s : TuiState} {key : KeyEvent} {kb : Keybind}
    (hpane : s.activePane ≠ .filter) (hmem : kb ∈ s.activePane.keybinds.flatten)
    (happlies : kb.applies key) : handleKey s key = kb.action s := by
  rw [handleKey, if_neg hpane,
    find?_eq_some_of_exclusive (exclusive_keybinds s.activePane key) hmem happlies]

theorem handleKey_of_forall {s : TuiState} {key : KeyEvent} (hpane : s.activePane ≠ .filter)
    (h : ∀ kb ∈ s.activePane.keybinds.flatten, ¬ kb.applies key) :
    handleKey s key = done s .none := by
  rw [handleKey, if_neg hpane, List.find?_eq_none.mpr h]

/-- **The order of the bindings does not matter**: whatever the order in which those of the pane are
searched, a key is handled in the same way. -/
theorem handleKey_eq_of_perm {s : TuiState} (hpane : s.activePane ≠ .filter) {kbs : List Keybind}
    (hperm : kbs.Perm s.activePane.keybinds.flatten) (key : KeyEvent) :
    handleKey s key = ((kbs.find? (·.applies key)).map (·.action s)).getD (done s .none) := by
  cases hfind : kbs.find? (·.applies key) with
  | none =>
    exact handleKey_of_forall hpane fun kb hmem =>
      List.find?_eq_none.mp hfind kb (hperm.mem_iff.mpr hmem)
  | some kb =>
    have happlies := List.find?_some hfind
    exact handleKey_of_mem hpane (hperm.mem_iff.mp (List.mem_of_find?_eq_some hfind)) happlies

/-! ### The manual -/

/-- What the user has set: the part of the state that keys change and frames do not. -/
structure Settings where
  sortKey : SortKey
  sortDir : SortDir
  activePane : Pane
  viewMode : ViewMode
  filterTarget : FilterTarget
  filterText : String
  unit : DisplayUnit
  unitPickerCursor : ℕ
  paused : Bool
  showDetail : Bool
  deriving DecidableEq, Repr

/-- The settings in a state. -/
def TuiState.settings (s : TuiState) : Settings where
  sortKey := s.sortKey
  sortDir := s.sortDir
  activePane := s.activePane
  viewMode := s.viewMode
  filterTarget := s.filterTarget
  filterText := s.filterText
  unit := s.unit
  unitPickerCursor := s.unitPickerCursor
  paused := s.paused
  showDetail := s.showDetail

namespace Settings

/-- Sorts by a column, or turns the order around if the rows are sorted by it. -/
def sortBy (u : Settings) (key : SortKey) : Settings :=
  if u.sortKey = key then { u with sortDir := u.sortDir.toggle }
  else { u with sortKey := key, sortDir := key.defaultDirection }

/-- The keys of the tables. -/
def pressMain (u : Settings) : KeyCode → Settings
  | .char 'r' => { u with sortDir := u.sortDir.toggle }
  | .char '1' => u.sortBy .pid
  | .char '2' => u.sortBy .name
  | .char '3' => u.sortBy .sent
  | .char '4' => u.sortBy .recv
  | .char '5' => u.sortBy .total
  | .char 'p' => { u with paused := !u.paused }
  | .char 'd' => { u with showDetail := !u.showDetail }
  | .char 'x' => { u with viewMode := u.viewMode.toggle }
  | .char 'u' => { u with activePane := .unit, unitPickerCursor := u.unit.index }
  | .char '/' => { u with activePane := .filter }
  | .char '?' | .char 'h' => { u with activePane := .help }
  | .esc => { u with filterText := "" }
  | _ => u

/-- The keys of the picker of units, whose cursor stays in its list. -/
def pressUnit (u : Settings) : KeyCode → Settings
  | .up | .char 'k' => { u with unitPickerCursor := u.unitPickerCursor - 1 }
  | .down | .char 'j' =>
    { u with unitPickerCursor := min (u.unitPickerCursor + 1) (DisplayUnit.ALL.length - 1) }
  | .enter =>
    { u with unit := DisplayUnit.ALL[u.unitPickerCursor]?.getD u.unit, activePane := .main }
  | .esc => { u with activePane := .main }
  | _ => u

/-- The key of the help. -/
def pressHelp (u : Settings) : KeyCode → Settings
  | .esc => { u with activePane := .main }
  | _ => u

/-- The keys of the prompt, where every character is text. -/
def type (u : Settings) : KeyCode → Settings
  | .char c => { u with filterText := u.filterText.push c }
  | .backspace => { u with filterText := String.ofList u.filterText.toList.dropLast }
  | .tab => { u with filterTarget := u.filterTarget.toggle }
  | .esc => { u with activePane := .main, filterText := "" }
  | .enter => { u with activePane := .main }
  | _ => u

/-- The keys that end the client, outside the prompt. -/
def Quits (key : KeyEvent) : Prop :=
  key.code.lower = .char 'q' ∨ key.control ∧ key.code.lower = .char 'c'

instance (key : KeyEvent) : Decidable (Quits key) :=
  inferInstanceAs (Decidable (_ ∨ _))

/-- What a key does outside the prompt, if it ends nothing. -/
def perform (u : Settings) (code : KeyCode) : Settings :=
  match u.activePane with
  | .main => u.pressMain code
  | .unit => u.pressUnit code
  | .help => u.pressHelp code
  | .filter => u

/-- **What a key does**; `none` is the end of the client. -/
def press (u : Settings) (key : KeyEvent) : Option Settings :=
  if u.activePane = .filter then some (u.type key.code)
  else if Quits key then none
  else some (u.perform key.code.lower)

variable {u : Settings} {key : KeyEvent} {code : KeyCode}

theorem press_filter (h : u.activePane = .filter) : u.press key = some (u.type key.code) :=
  if_pos h

theorem press_perform (h : u.activePane ≠ .filter) (hquits : ¬ Quits key) :
    u.press key = some (u.perform key.code.lower) := by
  rw [press, if_neg h, if_neg hquits]

theorem press_quits (h : u.activePane ≠ .filter) (hquits : Quits key) : u.press key = none := by
  rw [press, if_neg h, if_pos hquits]

theorem perform_main (h : u.activePane = .main) : u.perform code = u.pressMain code := by
  rw [perform, h]

theorem perform_unit (h : u.activePane = .unit) : u.perform code = u.pressUnit code := by
  rw [perform, h]

theorem perform_help (h : u.activePane = .help) : u.perform code = u.pressHelp code := by
  rw [perform, h]

end Settings

/-! ### The tables implement the manual -/

/-- What handling a key does is what the manual says of it; ending the client changes nothing. -/
def Implements (s : TuiState) (key : KeyEvent) (r : Option Handled) : Prop :=
  ∀ handled, r = some handled →
    s.settings.press key = (if handled.action = .quit then none else some handled.state.settings) ∧
      (handled.action = .quit → handled.state = s)

section Tables

variable {s s' : TuiState} {key : KeyEvent} {code : KeyCode}

/-- A key that ends nothing, outside the prompt. -/
theorem implements_perform (hpane : s.activePane ≠ .filter) (hcode : key.code.lower = code)
    (hq : code ≠ .char 'q') (hc : code ≠ .char 'c') {action : Action} (haction : action ≠ .quit)
    (h : s.settings.perform code = s'.settings) {sent : Option DaemonCommand} :
    Implements s key (some ⟨s', action, sent⟩) := by
  rintro handled heq
  obtain rfl := Option.some.inj heq
  have hquits : ¬ Settings.Quits key := by
    rintro (hlower | ⟨-, hlower⟩)
    · exact hq (hcode.symm.trans hlower)
    · exact hc (hcode.symm.trans hlower)
  refine ⟨?_, fun hquit => absurd hquit haction⟩
  rw [if_neg haction, ← h, Settings.press_perform hpane hquits, hcode]

theorem implements_quits (hpane : s.activePane ≠ .filter) (h : Settings.Quits key) :
    Implements s key (done s .quit) := by
  rintro handled heq
  obtain rfl := Option.some.inj heq
  exact ⟨Settings.press_quits hpane h, fun _ => rfl⟩

theorem implements_quitKeys (hpane : s.activePane ≠ .filter) :
    ∀ kb ∈ QUIT_KEYS, kb.applies key → Implements s key (kb.action s) := by
  simp only [QUIT_KEYS, List.forall_mem_cons, Keybind.applies_iff]
  simp only [KeySpec.codes, String.reduceToList, List.map_cons, List.map_nil, List.mem_singleton]
  exact ⟨fun h => implements_quits hpane (Or.inl h.1),
    fun h => implements_quits hpane (Or.inr ⟨h.2 'c' rfl, h.1⟩), by simp⟩

theorem implements_applySort (hpane : s.activePane = .main) (hcode : key.code.lower = code)
    (hq : code ≠ .char 'q') (hc : code ≠ .char 'c') {column : SortKey}
    (h : s.settings.pressMain code = s.settings.sortBy column) :
    Implements s key (applySort s column) := by
  have hmain : s.settings.perform code = s.settings.sortBy column :=
    (Settings.perform_main hpane).trans h
  have hpane' : s.activePane ≠ .filter := by simp [hpane]
  unfold applySort
  split
  case isTrue hsame =>
    refine implements_perform hpane' hcode hq hc (by simp) (hmain.trans ?_)
    exact if_pos hsame
  case isFalse hother =>
    refine implements_perform hpane' hcode hq hc (by simp) (hmain.trans ?_)
    exact if_neg hother

theorem implements_sortKeys (hpane : s.activePane = .main) :
    ∀ kb ∈ SORT_KEYS, kb.applies key → Implements s key (kb.action s) := by
  have hpane' : s.activePane ≠ .filter := by simp [hpane]
  simp only [SORT_KEYS, List.forall_mem_cons, Keybind.applies_iff]
  simp only [KeySpec.codes, String.reduceToList, List.map_cons, List.map_nil, List.mem_singleton]
  refine ⟨fun h => ?_, fun h => ?_, fun h => ?_, fun h => ?_, fun h => ?_, fun h => ?_, by simp⟩
  · exact implements_perform hpane' h.1 (by decide) (by decide) (by decide)
      (Settings.perform_main hpane)
  · exact implements_applySort hpane h.1 (by decide) (by decide) rfl
  · exact implements_applySort hpane h.1 (by decide) (by decide) rfl
  · exact implements_applySort hpane h.1 (by decide) (by decide) rfl
  · exact implements_applySort hpane h.1 (by decide) (by decide) rfl
  · exact implements_applySort hpane h.1 (by decide) (by decide) rfl

/-- The arrow keys move one of the cursors, of which only that of the picker is a setting. -/
theorem implements_moveCursor (hpane : s.activePane ≠ .filter) (hcode : key.code.lower = code)
    (hq : code ≠ .char 'q') (hc : code ≠ .char 'c') (isUp : Bool)
    (hmain : s.settings.pressMain code = s.settings)
    (hhelp : s.settings.pressHelp code = s.settings)
    (hunit : s.settings.pressUnit code = { s.settings with
      unitPickerCursor := (if isUp then s.unitPickerCursor - 1
        else min (s.unitPickerCursor + 1) (DisplayUnit.ALL.length - 1)) }) :
    Implements s key (moveCursor s isUp) := by
  cases hp : s.activePane with
  | main =>
    have hsame : s.settings.perform code = s.settings := (Settings.perform_main hp).trans hmain
    -- The cursor of the table stays where nothing is listed, and is no setting where it moves.
    by_cases hview : s.view = []
    · have hnone : moveCursor s isUp = done s .none := by simp [moveCursor, hp, hview]
      rw [hnone]
      exact implements_perform hpane hcode hq hc (by decide) hsame
    · have hmoved : s.settings = (s.moved isUp).settings := rfl
      rw [moveCursor_main hp hview]
      exact implements_perform hpane hcode hq hc (by decide) (hsame.trans hmoved)
  | unit =>
    have hnext : moveCursor s isUp = done { s with
        unitPickerCursor := (if isUp then s.unitPickerCursor - 1
          else min (s.unitPickerCursor + 1) (DisplayUnit.ALL.length - 1)) } .redraw := by
      simp only [moveCursor, hp]
    rw [hnext]
    exact implements_perform hpane hcode hq hc (by decide) ((Settings.perform_unit hp).trans hunit)
  | help =>
    have hnone : moveCursor s isUp = done s .none := by simp only [moveCursor, hp]
    rw [hnone]
    exact implements_perform hpane hcode hq hc (by decide) ((Settings.perform_help hp).trans hhelp)
  | filter => exact absurd hp hpane

theorem implements_navigationKeys (hpane : s.activePane ≠ .filter) :
    ∀ kb ∈ NAVIGATION_KEYS, kb.applies key → Implements s key (kb.action s) := by
  simp only [NAVIGATION_KEYS, List.forall_mem_cons, Keybind.applies_iff]
  simp only [KeySpec.codes, String.reduceToList, List.map_cons, List.map_nil, List.mem_singleton]
  refine ⟨fun h => ?_, fun h => ?_, fun h => ?_, fun h => ?_, by simp⟩
  · exact implements_moveCursor hpane h.1 (by decide) (by decide) true rfl rfl rfl
  · exact implements_moveCursor hpane h.1 (by decide) (by decide) false rfl rfl rfl
  · exact implements_moveCursor hpane h.1 (by decide) (by decide) true rfl rfl rfl
  · exact implements_moveCursor hpane h.1 (by decide) (by decide) false rfl rfl rfl

theorem implements_mainKeys (hpane : s.activePane = .main) :
    ∀ kb ∈ MAIN_KEYS, kb.applies key → Implements s key (kb.action s) := by
  have hpane' : s.activePane ≠ .filter := by simp [hpane]
  have hmain : ∀ {code action sent} {s' : TuiState}, key.code.lower = code → code ≠ .char 'q' →
      code ≠ .char 'c' → action ≠ .quit → s.settings.pressMain code = s'.settings →
      Implements s key (some ⟨s', action, sent⟩) := by
    intro code action sent s' hcode hq hc haction h
    exact implements_perform hpane' hcode hq hc haction ((Settings.perform_main hpane).trans h)
  simp only [MAIN_KEYS, List.forall_mem_cons, Keybind.applies_iff]
  simp only [KeySpec.codes, String.reduceToList, List.map_cons, List.map_nil, List.mem_cons,
    List.not_mem_nil, or_false]
  refine ⟨fun h => ?_, fun h => ?_, fun h => ?_, fun h => ?_, fun h => ?_, fun h => ?_, fun h => ?_,
    ?_, fun h => ?_, by simp⟩
  · exact hmain h.1 (by decide) (by decide) (by decide) rfl
  · exact hmain h.1 (by decide) (by decide) (by decide) rfl
  · exact hmain h.1 (by decide) (by decide) (by decide) rfl
  · exact hmain h.1 (by decide) (by decide) (by decide) rfl
  · exact hmain h.1 (by decide) (by decide) (by decide) rfl
  · exact hmain h.1 (by decide) (by decide) (by decide) rfl
  · exact hmain h.1 (by decide) (by decide) (by decide) rfl
  · rintro ⟨hcode | hcode, -⟩
    · exact hmain hcode (by decide) (by decide) (by decide) rfl
    · exact hmain hcode (by decide) (by decide) (by decide) rfl
  · -- Without a filter there is nothing to clear.
    split
    case isTrue hempty =>
      refine hmain h.1 (by decide) (by decide) (by decide) ?_
      rw [Settings.pressMain, TuiState.settings, String.isEmpty_iff.mp hempty]
    case isFalse => exact hmain h.1 (by decide) (by decide) (by decide) rfl

theorem implements_unitPickerKeys (hpane : s.activePane = .unit) :
    ∀ kb ∈ UNIT_PICKER_KEYS, kb.applies key → Implements s key (kb.action s) := by
  have hpane' : s.activePane ≠ .filter := by simp [hpane]
  simp only [UNIT_PICKER_KEYS, List.forall_mem_cons, Keybind.applies_iff]
  simp only [KeySpec.codes, List.mem_singleton]
  refine ⟨fun h => ?_, fun h => ?_, by simp⟩
  · cases hunit : DisplayUnit.ALL[s.unitPickerCursor]? with
    | none =>
      -- The code would panic at this index, so there is no state to speak of.
      exact fun _ hno => by cases hno
    | some unit =>
      refine implements_perform hpane' h.1 (by decide) (by decide) (by decide)
        ((Settings.perform_unit hpane).trans ?_)
      show { s.settings with unit := DisplayUnit.ALL[s.unitPickerCursor]?.getD s.unit,
                             activePane := .main } = _
      rw [hunit]
      rfl
  · exact implements_perform hpane' h.1 (by decide) (by decide) (by decide)
      (Settings.perform_unit hpane)

theorem implements_helpKeys (hpane : s.activePane = .help) :
    ∀ kb ∈ HELP_KEYS, kb.applies key → Implements s key (kb.action s) := by
  simp only [HELP_KEYS, List.forall_mem_cons, Keybind.applies_iff]
  simp only [KeySpec.codes, List.mem_singleton]
  exact ⟨fun h => implements_perform (by simp [hpane]) h.1 (by decide) (by decide) (by decide)
    (Settings.perform_help hpane), by simp⟩

theorem implements_filterInput (hpane : s.activePane = .filter) (key : KeyEvent) :
    Implements s key (handleFilterInput s key) := by
  have hfilter : ∀ {action} {s' : TuiState}, action ≠ .quit →
      s.settings.type key.code = s'.settings → Implements s key (done s' action) := by
    rintro action s' haction h handled heq
    obtain rfl := Option.some.inj heq
    refine ⟨?_, fun hquit => absurd hquit haction⟩
    rw [if_neg haction, ← h]
    exact Settings.press_filter hpane
  obtain ⟨code, control⟩ := key
  cases code <;> exact hfilter (by decide) rfl

/-- The keys that the bindings of a pane are for, with or without the control key. -/
def Pane.codes (pane : Pane) : List KeyCode :=
  pane.keybinds.flatten.flatMap fun kb =>
    match kb.key with
    | .ctrl _ => []
    | spec => spec.codes

theorem lower_notMem_codes {pane : Pane} (h : ∀ kb ∈ pane.keybinds.flatten, ¬ kb.applies key) :
    key.code.lower ∉ pane.codes := by
  intro hcode
  obtain ⟨kb, hmem, hcode⟩ := List.mem_flatMap.mp hcode
  refine h kb hmem ((kb.applies_iff key).mpr ?_)
  split at hcode
  · cases hcode
  · exact ⟨hcode, fun c hc => absurd hc (by simp_all)⟩

/-- The manual says nothing of a key without a binding. -/
theorem Settings.perform_of_notMem {u : Settings} (h : code ∉ u.activePane.codes) :
    u.perform code = u := by
  unfold Settings.perform
  cases hpane : u.activePane with
  | main =>
    rw [hpane] at h
    dsimp only
    unfold Settings.pressMain
    split <;> first | rfl | exact absurd (by decide +kernel) h
  | unit =>
    rw [hpane] at h
    dsimp only
    unfold Settings.pressUnit
    split <;> first | rfl | exact absurd (by decide +kernel) h
  | help =>
    rw [hpane] at h
    dsimp only
    unfold Settings.pressHelp
    split <;> first | rfl | exact absurd (by decide +kernel) h
  | filter => rfl

/-- A key without a binding does nothing. -/
theorem press_of_forall (hpane : s.activePane ≠ .filter)
    (h : ∀ kb ∈ s.activePane.keybinds.flatten, ¬ kb.applies key) :
    s.settings.press key = some s.settings := by
  -- The keys that end the client have bindings in every pane, so the key is none of them.
  have hquit : ∀ kb ∈ QUIT_KEYS, kb ∈ s.activePane.keybinds.flatten := by
    intro kb hkb
    cases hp : s.activePane with
    | main | unit | help => simp [Pane.keybinds, hkb]
    | filter => exact absurd hp hpane
  have hquits : ¬ Settings.Quits key := by
    simp only [QUIT_KEYS, List.forall_mem_cons] at hquit
    rintro (hcode | ⟨hcontrol, hcode⟩)
    · exact h _ hquit.1 ((Keybind.applies_iff _ key).mpr ⟨by simp [hcode, KeySpec.codes], by simp⟩)
    · exact h _ hquit.2.1 ((Keybind.applies_iff _ key).mpr
        ⟨by simp [hcode, KeySpec.codes], fun _ _ => hcontrol⟩)
  rw [Settings.press_perform hpane hquits, Settings.perform_of_notMem (lower_notMem_codes h)]

/-- **A key does what the manual says**, in every pane. -/
theorem implements_handleKey (s : TuiState) (key : KeyEvent) :
    Implements s key (handleKey s key) := by
  by_cases hpane : s.activePane = .filter
  · rw [handleKey, if_pos hpane]
    exact implements_filterInput hpane key
  · by_cases hall : ∀ kb ∈ s.activePane.keybinds.flatten, ¬ kb.applies key
    · rw [handleKey_of_forall hpane hall]
      rintro handled heq
      obtain rfl := Option.some.inj heq
      exact ⟨press_of_forall hpane hall, fun hquit => by cases hquit⟩
    · simp only [not_forall, not_not] at hall
      obtain ⟨kb, hmem, happlies⟩ := hall
      -- The binding that applies is the only one, whatever the order of the groups.
      rw [handleKey_of_mem hpane hmem happlies]
      cases hp : s.activePane with
      | main =>
        rw [hp] at hmem
        simp only [Pane.keybinds, List.flatten_cons, List.flatten_nil, List.mem_append,
          List.append_nil] at hmem
        rcases hmem with hmem | hmem | hmem | hmem
        · exact implements_sortKeys hp kb hmem happlies
        · exact implements_navigationKeys hpane kb hmem happlies
        · exact implements_mainKeys hp kb hmem happlies
        · exact implements_quitKeys hpane kb hmem happlies
      | unit =>
        rw [hp] at hmem
        simp only [Pane.keybinds, List.flatten_cons, List.flatten_nil, List.mem_append,
          List.append_nil] at hmem
        rcases hmem with hmem | hmem | hmem
        · exact implements_unitPickerKeys hp kb hmem happlies
        · exact implements_navigationKeys hpane kb hmem happlies
        · exact implements_quitKeys hpane kb hmem happlies
      | help =>
        rw [hp] at hmem
        simp only [Pane.keybinds, List.flatten_cons, List.flatten_nil, List.mem_append,
          List.append_nil] at hmem
        rcases hmem with hmem | hmem
        · exact implements_helpKeys hp kb hmem happlies
        · exact implements_quitKeys hpane kb hmem happlies
      | filter => exact absurd hp hpane

end Tables

/-! ### A session follows the manual -/

/-- What the keys of a session have set, and the snapshot that it shows. -/
structure Display where
  snap : SnapshotData
  settings : Settings
  isOpen : Bool
  deriving DecidableEq, Repr

/-- What a session takes from outside. -/
inductive Input where
  | snapshot (snap : SnapshotData) : Input
  | key (key : KeyEvent) : Input
  /-- The daemon hangs up, or the terminal fails. -/
  | failure : Input
  deriving DecidableEq, Repr

/-- The key that is pressed. -/
def Input.key? : Input → Option KeyEvent
  | key k => some k
  | snapshot _ | failure => none

namespace Display

/-- **The manual of a session**: a snapshot is shown unless the feed is paused, and a key does what
it is for. -/
def step (d : Display) : Input → Option Display
  | .snapshot snap =>
    if d.isOpen then some (if d.settings.paused then d else { d with snap }) else none
  | .key key =>
    if d.isOpen then
      some (((d.settings.press key).map fun settings => { d with settings }).getD
        { d with isOpen := false })
    else none
  | .failure => if d.isOpen then some { d with isOpen := false } else none

/-- The view of the next frame, and its pids. -/
def lists (d : Display) : Option (List ℕ × List UInt32) :=
  viewOf d.snap { TuiState.new with
    sortKey := d.settings.sortKey
    sortDir := d.settings.sortDir
    viewMode := d.settings.viewMode
    filterTarget := d.settings.filterTarget
    filterText := d.settings.filterText }

variable {d d' : Display}

/-- **What one step of the manual can do.** -/
theorem step_cases {input : Input} (h : d.step input = some d') :
    d.isOpen = true ∧
      ((∃ snap, input = .snapshot snap ∧ d'.settings = d.settings ∧ d'.isOpen = true) ∨
      (∃ key u, input = .key key ∧ d.settings.press key = some u ∧ d' = { d with settings := u }) ∨
      (∃ key, input = .key key ∧ d.settings.press key = none ∧ d' = { d with isOpen := false }) ∨
      input = .failure ∧ d' = { d with isOpen := false }) := by
  cases input with
  | snapshot snap =>
    rw [step] at h
    split_ifs at h with hopen hpaused
    · obtain rfl := Option.some.inj h
      exact ⟨hopen, Or.inl ⟨snap, rfl, rfl, hopen⟩⟩
    · obtain rfl := Option.some.inj h
      exact ⟨hopen, Or.inl ⟨snap, rfl, rfl, hopen⟩⟩
  | key key =>
    rw [step] at h
    split_ifs at h with hopen
    refine ⟨hopen, Or.inr ?_⟩
    cases hpress : d.settings.press key with
    | some u =>
      rw [hpress] at h
      exact Or.inl ⟨key, u, rfl, hpress, (Option.some.inj h).symm⟩
    | none =>
      rw [hpress] at h
      exact Or.inr (Or.inl ⟨key, rfl, hpress, (Option.some.inj h).symm⟩)
  | failure =>
    rw [step] at h
    split_ifs at h with hopen
    exact ⟨hopen, Or.inr (Or.inr (Or.inr ⟨rfl, (Option.some.inj h).symm⟩))⟩

/-- Nothing follows once the client has ended. -/
theorem exec_closed {inputs : List Input} (hclosed : d.isOpen = false)
    (h : exec step d inputs = some d') : inputs = [] ∧ d' = d := by
  cases inputs with
  | nil => exact ⟨rfl, (Option.some.inj h).symm⟩
  | cons input inputs =>
    obtain ⟨d₁, hd₁, -⟩ := exec_cons_eq_some.mp h
    rw [(step_cases hd₁).1] at hclosed
    cases hclosed

/-- **The keys alone say what is set**, and whether they have ended the client. -/
theorem exec_keys {inputs : List Input} (h : exec step d inputs = some d') :
    (∀ u, exec Settings.press d.settings (inputs.filterMap Input.key?) = some u →
      d'.settings = u) ∧
    (exec Settings.press d.settings (inputs.filterMap Input.key?) = none → d'.isOpen = false) := by
  induction inputs generalizing d with
  | nil =>
    obtain rfl : d = d' := by simpa using h
    refine ⟨fun u hu => Option.some.inj hu, fun hnone => ?_⟩
    cases hnone
  | cons input inputs ih =>
    obtain ⟨d₁, hd₁, hrest⟩ := exec_cons_eq_some.mp h
    have hkeys := ih hrest
    obtain ⟨-, ⟨snap, rfl, hsame, -⟩ | ⟨key, u, rfl, hpress, rfl⟩ | ⟨key, rfl, hpress, rfl⟩ |
      ⟨rfl, rfl⟩⟩ := step_cases hd₁
    · rwa [hsame] at hkeys
    · rwa [List.filterMap_cons_some (rfl : Input.key? (.key key) = some key), exec_cons, hpress]
    · rw [List.filterMap_cons_some (rfl : Input.key? (.key key) = some key), exec_cons, hpress]
      obtain ⟨-, rfl⟩ := exec_closed rfl hrest
      refine ⟨fun u hu => ?_, fun _ => rfl⟩
      cases hu
    · exact hkeys

/-- **Only a key ends the client**, if nothing has failed, and it is the last one. -/
theorem exists_last_key {inputs : List Input} (h : exec step d inputs = some d')
    (hopen : d.isOpen = true) (hclosed : d'.isOpen = false) (hfail : .failure ∉ inputs) :
    ∃ keys key u, inputs.filterMap Input.key? = keys ++ [key] ∧
      exec Settings.press d.settings keys = some u ∧ u.press key = none := by
  induction inputs generalizing d with
  | nil =>
    obtain rfl : d = d' := by simpa using h
    rw [hopen] at hclosed
    cases hclosed
  | cons input inputs ih =>
    obtain ⟨d₁, hd₁, hrest⟩ := exec_cons_eq_some.mp h
    have hfail' : .failure ∉ inputs := fun hmem => hfail (List.mem_cons_of_mem _ hmem)
    obtain ⟨-, ⟨snap, rfl, hsame, hopen₁⟩ | ⟨key, u, rfl, hpress, rfl⟩ | ⟨key, rfl, hpress, rfl⟩ |
      ⟨rfl, rfl⟩⟩ := step_cases hd₁
    · obtain ⟨keys, last, u, hkeys, hu, hlast⟩ := ih hrest hopen₁ hfail'
      rw [hsame] at hu
      exact ⟨keys, last, u, hkeys, hu, hlast⟩
    · obtain ⟨keys, last, u', hkeys, hu', hlast⟩ := ih hrest hopen hfail'
      refine ⟨key :: keys, last, u', ?_, exec_cons_eq_some.mpr ⟨u, hpress, hu'⟩, hlast⟩
      rw [List.filterMap_cons_some (rfl : Input.key? (.key key) = some key), hkeys]
      rfl
    · obtain ⟨rfl, -⟩ := exec_closed rfl hrest
      exact ⟨[], key, d.settings, rfl, rfl, hpress⟩
    · exact absurd (List.mem_cons_self ..) hfail

end Display

/-- What a step of the loop takes from outside; a frame or a timeout is nothing to the manual. -/
def SessionStep.input? : SessionStep → Option Input
  | recv snap => some (.snapshot snap)
  | event (some key) => some (.key key)
  | fail => some .failure
  | draw _ | event none => none

/-- What a session takes from outside. -/
def inputsOf (ls : List SessionStep) : List Input := ls.filterMap SessionStep.input?

/-- The keys that are pressed in it. -/
def keysOf (ls : List SessionStep) : List KeyEvent := (inputsOf ls).filterMap Input.key?

namespace Session

/-- What a session has set, and shows. -/
def display (c : Session) : Display := ⟨c.snap, c.state.settings, c.phase ≠ .quit⟩

variable {c c' : Session} {l : SessionStep}

theorem settings_drawn (s : TuiState) (height : ℕ) (view : List ℕ) (pids : List UInt32) :
    (s.drawn height view pids).settings = s.settings := by
  unfold TuiState.drawn
  split <;> rfl

/-- A frame is nothing to the manual. -/
theorem display_draw (c : Session) (height : ℕ) {phase : LoopPhase} (hphase : phase ≠ .quit)
    (hc : c.phase ≠ .quit) : (c.draw height phase).display = c.display := by
  obtain ⟨view, pids, -, -, hdraw⟩ := exists_draw c height phase
  rw [hdraw, display, display, settings_drawn]
  simp [hphase, hc]

/-- The step lemma: **the loop does what the manual says.** -/
theorem display_step (hc : c.Sound) (h : c.step l = some c') :
    exec Display.step c.display l.input?.toList = some c'.display := by
  cases l with
  | recv snap =>
    simp only [step] at h
    split at h
    · cases h
    case isFalse hphase =>
      have hopen : c.display.isOpen := by simp [display, not_not.mp hphase]
      rw [SessionStep.input?, Option.toList_some, exec_singleton, Display.step, if_pos hopen]
      split at h
      case isTrue hpaused =>
        obtain rfl := Option.some.inj h
        exact congrArg some (if_pos hpaused)
      case isFalse hpaused =>
        obtain rfl := Option.some.inj h
        exact congrArg some (if_neg hpaused)
  | draw height =>
    show some c.display = some c'.display
    simp only [step] at h
    split at h
    case h_1 hphase =>
      rw [← Option.some.inj h, display_draw c height (by decide) (by simp [hphase])]
    case h_2 hphase =>
      rw [← Option.some.inj h, display_draw c height (by decide) (by simp [hphase])]
    case h_3 => cases h
  | event key =>
    simp only [step] at h
    split at h
    · cases h
    case isFalse hphase =>
      have hopen : c.display.isOpen := by simp [display, not_not.mp hphase]
      cases key with
      | none =>
        rw [← Option.some.inj h]
        show some c.display = some _
        simp [display, not_not.mp hphase]
      | some key =>
        obtain ⟨⟨state, action, sent⟩, hhandled, -⟩ := handleKey_spec hc.2 key
        obtain ⟨hpress, hquit⟩ := implements_handleKey c.state key _ hhandled
        simp only [hhandled] at h
        rw [SessionStep.input?, Option.toList_some, exec_singleton, Display.step, if_pos hopen]
        show some (((c.state.settings.press key).map _).getD _) = _
        rw [hpress]
        cases action with
        | quit =>
          obtain rfl : state = c.state := hquit rfl
          rw [← Option.some.inj h]
          rfl
        | redraw =>
          rw [← Option.some.inj h]
          simp [display, not_not.mp hphase]
        | none =>
          rw [← Option.some.inj h]
          simp [display, not_not.mp hphase]
  | fail =>
    simp only [step] at h
    split at h
    · cases h
    case isFalse hphase =>
      have hopen : c.display.isOpen := by
        simp only [not_or] at hphase
        simp [display, hphase.1]
      rw [SessionStep.input?, Option.toList_some, exec_singleton, Display.step, if_pos hopen,
        ← Option.some.inj h]
      rfl

/-- The run lemma, for what is taken from outside. -/
theorem display_exec {ls : List SessionStep} (hc : c.Sound) (h : exec step c ls = some c') :
    exec Display.step c.display (inputsOf ls) = some c'.display := by
  induction ls generalizing c with
  | nil =>
    obtain rfl : c = c' := by simpa using h
    rfl
  | cons l ls ih =>
    obtain ⟨c₁, hc₁, hrest⟩ := exec_cons_eq_some.mp h
    have hsplit : inputsOf (l :: ls) = l.input?.toList ++ inputsOf ls := by
      cases hl : l.input? <;> simp [inputsOf, hl]
    rw [hsplit, exec_append_eq_some]
    exact ⟨c₁.display, display_step hc hc₁, ih (sound_step hc hc₁) hrest⟩

theorem sound_exec {ls : List SessionStep} (h : exec step .new ls = some c) : c.Sound :=
  exec_invariant (I := Sound) (fun _ _ _ hc hstep => sound_step hc hstep)
    ⟨by decide, TuiState.good_new⟩ h

/-- **What a frame lists** is given by the display. -/
theorem lists_of_draw {height : ℕ} (h : c.step (.draw height) = some c') :
    c.display.lists = some (c'.state.view, c'.state.viewPids) := by
  obtain ⟨phase, -, rfl⟩ := eq_draw_of_step h
  obtain ⟨view, pids, frame, hview, hlen, -, hrender⟩ := render_eq_drawn c.snap height c.state
  have hstate : (c.draw height phase).state = c.state.drawn height view pids := by
    rw [draw, hrender]
  rw [hstate, TuiState.view_drawn, TuiState.viewPids_drawn hlen, ← hview]
  unfold Display.lists viewOf
  cases hmode : c.state.viewMode with
  | live => simp only [display, TuiState.settings, hmode]; rfl
  | dead => simp only [display, TuiState.settings, hmode]; rfl

end Session

/-- **A session is a run of the manual**: what is set and which snapshot is shown is what the manual
makes of the snapshots and keys, whatever frames of whatever heights are drawn between them, and
however often the loop waits in vain; and the next frame lists what the display says. -/
theorem session_follows_manual {ls : List SessionStep} {c : Session}
    (h : exec Session.step .new ls = some c) :
    exec Display.step Session.new.display (inputsOf ls) = some c.display ∧
      ∀ height c', c.step (.draw height) = some c' →
        c.display.lists = some (c'.state.view, c'.state.viewPids) := by
  refine ⟨Session.display_exec ⟨by decide, TuiState.good_new⟩ h, ?_⟩
  rintro height c' hdraw
  exact Session.lists_of_draw hdraw

/-! ### What follows for sessions -/

namespace Settings

/-- Esc leads to the tables from every pane. -/
theorem press_esc (u : Settings) (control : Bool) :
    ∃ u', u.press ⟨.esc, control⟩ = some u' ∧ u'.activePane = .main := by
  have hquits : ¬ Quits ⟨.esc, control⟩ := by simp [Quits, KeyCode.lower]
  cases hpane : u.activePane with
  | main =>
    exact ⟨_, press_perform (by simp [hpane]) hquits,
      (congrArg activePane (perform_main hpane)).trans hpane⟩
  | unit =>
    exact ⟨_, press_perform (by simp [hpane]) hquits, congrArg activePane (perform_unit hpane)⟩
  | help =>
    exact ⟨_, press_perform (by simp [hpane]) hquits, congrArg activePane (perform_help hpane)⟩
  | filter => exact ⟨_, press_filter hpane, rfl⟩

/-- **Whatever is set, Esc and then q end the client.** -/
theorem exec_esc_q (u : Settings) {keys : List KeyEvent}
    (h : keys.map (·.code) = [.esc, .char 'q']) : exec press u keys = none := by
  obtain ⟨⟨code, control⟩, keys, rfl, rfl, hq⟩ := List.map_eq_cons_iff.mp h
  obtain ⟨⟨code, control'⟩, rfl, rfl⟩ := List.map_eq_singleton_iff.mp hq
  obtain ⟨u', hesc, hpane⟩ := u.press_esc control
  rw [exec_cons, hesc, Option.bind_some, exec_singleton]
  exact press_quits (by simp [hpane]) (Or.inl rfl)

/-- Typing in the prompt appends to the filter. -/
theorem exec_typed {u : Settings} (hpane : u.activePane = .filter) {text : List Char}
    {keys : List KeyEvent} (h : keys.map (·.code) = text.map .char) :
    exec press u keys =
      some { u with filterText := String.ofList (u.filterText.toList ++ text) } := by
  induction text generalizing u keys with
  | nil =>
    obtain rfl := List.map_eq_nil_iff.mp h
    simp
  | cons c text ih =>
    obtain ⟨⟨code, control⟩, keys, rfl, rfl, hrest⟩ := List.map_eq_cons_iff.mp h
    have htyped : u.press ⟨.char c, control⟩ =
        some { u with filterText := u.filterText.push c } := press_filter hpane
    have hmore := ih (u := { u with filterText := u.filterText.push c }) hpane hrest
    rw [exec_cons, htyped, Option.bind_some, hmore, String.toList_push, List.append_assoc,
      List.singleton_append]

/-- **A filter is opened, typed and closed.** -/
theorem exec_filter {u : Settings} (hpane : u.activePane = .main) {text : String}
    {keys : List KeyEvent}
    (h : keys.map (·.code) = .char '/' :: (text.toList.map .char ++ [.enter])) :
    exec press u keys = some { u with filterText := u.filterText ++ text } := by
  obtain ⟨⟨code, control⟩, keys, rfl, rfl, hrest⟩ := List.map_eq_cons_iff.mp h
  obtain ⟨typed, last, rfl, htyped, hlast⟩ := List.map_eq_append_iff.mp hrest
  obtain ⟨⟨code, control'⟩, rfl, rfl⟩ := List.map_eq_singleton_iff.mp hlast
  have hopen : u.press ⟨.char '/', control⟩ = some { u with activePane := .filter } := by
    have hlower : KeyCode.lower (.char '/') = .char '/' := by decide
    have hquits : ¬ Quits ⟨.char '/', control⟩ := by
      rintro (hq | ⟨-, hc⟩)
      · exact absurd (hlower.symm.trans hq) (by decide)
      · exact absurd (hlower.symm.trans hc) (by decide)
    rw [press_perform (by simp [hpane]) hquits, perform_main hpane]
    rfl
  have htext := exec_typed (u := { u with activePane := .filter }) rfl htyped
  rw [exec_cons, hopen, Option.bind_some, exec_append, htext, Option.bind_some, exec_singleton,
    press_filter rfl, ← String.toList_append, String.ofList_toList]
  exact congrArg
    (fun pane => some { u with activePane := pane, filterText := u.filterText ++ text }) hpane.symm

end Settings

/-- A filter is typed, while another snapshot arrives. -/
def typingSession : List SessionStep :=
  [.recv ⟨1000, 1, [quietRow 7 "curl" 5, quietRow 9 "ssh" 3], []⟩, .draw 10,
    .event (some ⟨.char '/', false⟩), .draw 10, .draw 10, .event (some ⟨.char 'S', false⟩),
    .draw 10, .recv ⟨1000, 2, [quietRow 7 "curl" 5, quietRow 8 "sshd" 1, quietRow 9 "ssh" 3], []⟩,
    .draw 10, .event none, .draw 10, .event (some ⟨.enter, false⟩), .draw 10]

theorem session_follows_manual_typing :
    ∃ c, exec Session.step .new typingSession = some c ∧
      exec Display.step Session.new.display (inputsOf typingSession) = some c.display ∧
      c.display.settings.filterText = "S" ∧ c.display.lists = some ([1, 2], [8, 9]) := by
  obtain ⟨c, hc, hp⟩ := exists_exec_of_any Session.step .new typingSession
    (fun c => c.display.settings.filterText = "S" ∧ c.display.lists = some ([1, 2], [8, 9]))
    (by decide +kernel)
  obtain ⟨htext, hlists⟩ := of_decide_eq_true hp
  exact ⟨c, hc, (session_follows_manual hc).1, htext, hlists⟩

/-- **What a typed filter lists.** Let `/`, a text and Enter be pressed in the tables, with any
snapshots and frames in between. Then the text has been added to the filter and nothing else has
been set; and the next frame has the index of every entry of the list shown whose name, or pid, as
the filter says, contains the filter in lower case, once, and of no other, in the order of the
column. -/
theorem typed_filter_lists {ls₀ ls : List SessionStep} {c c' : Session} {text : String}
    (h₀ : exec Session.step .new ls₀ = some c) (h : exec Session.step c ls = some c')
    (hpane : c.state.activePane = .main)
    (hkeys : (keysOf ls).map (·.code) = .char '/' :: (text.toList.map .char ++ [.enter])) :
    c'.state.settings = { c.state.settings with filterText := c.state.filterText ++ text } ∧
      ∀ height c'', c'.step (.draw height) = some c'' →
        match c.state.viewMode with
        | .live => rowColumns.Lists c'.snap.rows c'.state c''.state.view
        | .dead => deadColumns.Lists c'.snap.deadProcs c'.state c''.state.view := by
  have hdisplay := Session.display_exec (Session.sound_exec h₀) h
  have hset : c'.state.settings =
      { c.state.settings with filterText := c.state.filterText ++ text } :=
    (Display.exec_keys hdisplay).1 _ (Settings.exec_filter hpane hkeys)
  refine ⟨hset, fun height c'' hdraw => ?_⟩
  have hmode : c'.state.viewMode = c.state.viewMode := congrArg Settings.viewMode hset
  obtain ⟨phase, -, rfl⟩ := Session.eq_draw_of_step hdraw
  obtain ⟨view, pids, frame, -, -, -, hrender⟩ := render_eq_drawn c'.snap height c'.state
  have hview := view_of_render hrender
  have hstate : (c'.draw height phase).state = c'.state.drawn height view pids := by
    rw [Session.draw, hrender]
  rw [hmode] at hview
  rw [hstate]
  cases hlist : c.state.viewMode with
  | live =>
    rw [hlist] at hview
    exact Columns.lists_view hview
  | dead =>
    rw [hlist] at hview
    exact Columns.lists_view hview

theorem typed_filter_lists_typing :
    ∃ c c', exec Session.step .new (typingSession.take 2) = some c ∧
      exec Session.step c (typingSession.drop 2) = some c' ∧ c'.state.filterText = "S" ∧
      ∀ height c'', c'.step (.draw height) = some c'' →
        rowColumns.Lists c'.snap.rows c'.state c''.state.view := by
  obtain ⟨c, hc, hp⟩ := exists_exec_of_any Session.step .new (typingSession.take 2)
    (fun c => c.state.activePane = .main ∧ c.state.viewMode = .live ∧ c.state.filterText = "")
    (by decide +kernel)
  obtain ⟨hpane, hmode, htext⟩ := of_decide_eq_true hp
  obtain ⟨c', hall, -⟩ := exists_exec_of_any Session.step .new typingSession (fun _ => true)
    (by decide +kernel)
  have hc' : exec Session.step c (typingSession.drop 2) = some c' := exec_drop hc hall
  have hkeys : (keysOf (typingSession.drop 2)).map (·.code) =
      .char '/' :: ("S".toList.map .char ++ [.enter]) := by decide +kernel
  have hlists := typed_filter_lists hc hc' hpane hkeys
  rw [hmode, htext] at hlists
  exact ⟨c, c', hc, hc', congrArg Settings.filterText hlists.1, hlists.2⟩

/-- **Ending the client.** In every session, Esc and then q end it, whatever has been pressed before
and in whatever pane. And if it has ended without an error, it was by its last key, q or Ctrl-C, and
not in the prompt of the filter, where these are text. -/
theorem ends_by_keys {ls : List SessionStep} {c : Session}
    (h : exec Session.step .new ls = some c) :
    (∀ keys esc q, keysOf ls = keys ++ [esc, q] → esc.code = .esc → q.code = .char 'q' →
      c.phase = .quit) ∧
    (c.phase = .quit → .fail ∉ ls → ∃ keys key u, keysOf ls = keys ++ [key] ∧
      exec Settings.press TuiState.new.settings keys = some u ∧ u.activePane ≠ .filter ∧
      Settings.Quits key) := by
  have hdisplay := Session.display_exec ⟨by decide, TuiState.good_new⟩ h
  constructor
  · intro keys esc q hkeys hesc hq
    have hnone : exec Settings.press TuiState.new.settings (keysOf ls) = none := by
      rw [hkeys, exec_append]
      cases exec Settings.press TuiState.new.settings keys with
      | none => rfl
      | some u => exact u.exec_esc_q (by simp [hesc, hq])
    exact not_not.mp (of_decide_eq_false ((Display.exec_keys hdisplay).2 hnone))
  · intro hquit hfail
    have hno : .failure ∉ inputsOf ls := by
      intro hmem
      obtain ⟨l, hl, hinput⟩ := List.mem_filterMap.mp hmem
      cases l with
      | fail => exact hfail hl
      | event key => cases key <;> cases hinput
      | recv | draw => cases hinput
    obtain ⟨keys, key, u, hkeys, hu, hlast⟩ := Display.exists_last_key hdisplay (by decide)
      (by simp [Session.display, hquit]) hno
    have hpane : u.activePane ≠ .filter := by
      intro hpane
      rw [Settings.press_filter hpane] at hlast
      cases hlast
    refine ⟨keys, key, u, hkeys, hu, hpane, ?_⟩
    by_contra hquits
    rw [Settings.press_perform hpane hquits] at hlast
    cases hlast

/-- In the prompt a `q` is text, and after Esc it is not. -/
def leavingSession : List SessionStep :=
  [.draw 10, .event (some ⟨.char '/', false⟩), .draw 10, .draw 10,
    .event (some ⟨.char 'q', false⟩), .draw 10, .draw 10, .event (some ⟨.esc, false⟩), .draw 10,
    .draw 10, .event (some ⟨.char 'q', false⟩)]

theorem ends_by_keys_leaving :
    ∃ c, exec Session.step .new leavingSession = some c ∧ c.phase = .quit := by
  obtain ⟨c, hc, -⟩ := exists_exec_of_any Session.step .new leavingSession (fun _ => true)
    (by decide +kernel)
  refine ⟨c, hc, (ends_by_keys hc).1 [⟨.char '/', false⟩, ⟨.char 'q', false⟩] ⟨.esc, false⟩
    ⟨.char 'q', false⟩ ?_ rfl rfl⟩
  decide +kernel

end Procnet
