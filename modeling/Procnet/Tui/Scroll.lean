import Mathlib.Data.Nat.Dist
import Procnet.Tui.Keys

/-!
# Where the window of rows starts

`clamp_scroll` of `procnet/src/tui/view.rs` is called twice for a press of an arrow key, when the
cursor is moved and when the next frame is drawn, and every slice of rows that is drawn rests on
it. `Clamped` is what it is for, in its own terms: the cursor is the requested row, or the last
one; and among the offsets that show the cursor and leave no empty space at the bottom, the one
returned is the closest to where the window was.

The code computes with machine integers. `clampScrollChecked` is the same function with every
addition and subtraction checked, as a debug build has it: none of them overflows, in either
direction (`clampScrollChecked_eq`). `clampScroll_correct` puts all of this together.
-/

namespace Procnet

/-! ### Checked arithmetic -/

/-- A subtraction, which panics below zero. -/
def checkedSub (a b : ℕ) : Option ℕ := if b ≤ a then some (a - b) else none

/-- An addition of two `usize`s, which panics above the greatest one. -/
def checkedAdd (usizeMax a b : ℕ) : Option ℕ := if a + b ≤ usizeMax then some (a + b) else none

theorem checkedSub_of_le {a b : ℕ} (h : b ≤ a) : checkedSub a b = some (a - b) := if_pos h

theorem checkedAdd_of_le {usizeMax a b : ℕ} (h : a + b ≤ usizeMax) :
    checkedAdd usizeMax a b = some (a + b) := if_pos h

/-- `clampScroll`, as it is computed on machine integers. -/
def clampScrollChecked (usizeMax selected offset : ℕ) (numVisibleRows : UInt16) (len : ℕ) :
    Option (ℕ × ℕ) :=
  if len = 0 then some (0, 0)
  else
    (checkedSub len 1).bind fun last =>
      let selected := min selected last
      let vis := numVisibleRows.toNat
      if vis = 0 ∨ len ≤ vis then some (selected, 0)
      else
        (checkedSub len vis).bind fun lastPage =>
          let offset := min offset lastPage
          if selected < offset then some (selected, selected)
          else
            ((checkedAdd usizeMax offset vis).bind fun stop => checkedSub stop 1).bind fun bottom =>
              if selected > bottom then
                ((checkedAdd usizeMax selected 1).bind fun next => checkedSub next vis).map
                  fun offset => (selected, offset)
              else some (selected, offset)

/-- **No intermediate result is out of range**, of whatever width a `usize` is. -/
theorem clampScrollChecked_eq {usizeMax len : ℕ} (hlen : len ≤ usizeMax) (selected offset : ℕ)
    (numVisibleRows : UInt16) :
    clampScrollChecked usizeMax selected offset numVisibleRows len =
      some (clampScroll selected offset numVisibleRows.toNat len) := by
  simp only [clampScrollChecked, clampScroll]
  split
  · rfl
  · rw [checkedSub_of_le (by omega : 1 ≤ len), Option.bind_some]
    split
    · rfl
    · rw [checkedSub_of_le (by omega : numVisibleRows.toNat ≤ len), Option.bind_some]
      split
      · rfl
      · -- The window ends in the list, so its end is a `usize`.
        rw [checkedAdd_of_le (by omega), Option.bind_some, checkedSub_of_le (by omega),
          Option.bind_some]
        split
        · rw [checkedAdd_of_le (by omega), Option.bind_some, checkedSub_of_le (by omega)]
          rfl
        · rfl

/-! ### What it is for -/

/-- An offset from which the window shows the cursor, and has rows down to its bottom. -/
structure ShowsCursor (selected vis len offset : ℕ) : Prop where
  page : offset ≤ len - vis
  above : offset ≤ selected
  below : selected < offset + vis

/-- **The specification of the clamping**: the cursor is in the list, and the window has moved
as little as it must. -/
structure Clamped (selected offset vis len selected' offset' : ℕ) : Prop where
  cursor : 0 < len → selected' = min selected (len - 1)
  window : 0 < vis → vis < len → ShowsCursor selected' vis len offset'
  closest : 0 < vis → vis < len → ∀ o, ShowsCursor selected' vis len o → o ≠ offset' →
    offset'.dist (min offset (len - vis)) < o.dist (min offset (len - vis))
  fits : ¬ (0 < vis ∧ vis < len) → offset' = 0

/-- Where the window is moved, it is moved to an end of the range of offsets that show the
cursor: the first one, or the last one. -/
theorem clampScroll_of_lt {selected offset vis len : ℕ} (hvis : 0 < vis) (hlen : vis < len) :
    clampScroll selected offset vis len =
      (min selected (len - 1),
        max (min selected (len - 1) + 1 - vis) (min (min offset (len - vis))
          (min selected (len - 1)))) := by
  simp only [clampScroll]
  rw [if_neg (by omega), if_neg (by omega)]
  split
  · refine Prod.ext rfl ?_
    show min selected (len - 1) = _
    omega
  · split
    · refine Prod.ext rfl ?_
      show min selected (len - 1) + 1 - vis = _
      omega
    · refine Prod.ext rfl ?_
      show min offset (len - vis) = _
      omega

/-- Where all rows fit, or none is drawn, the window is at the top. -/
theorem clampScroll_of_fits {selected offset vis len : ℕ} (h : ¬ (0 < vis ∧ vis < len)) :
    clampScroll selected offset vis len = (min selected (len - 1), 0) := by
  simp only [clampScroll]
  split
  · refine Prod.ext ?_ rfl
    show 0 = min selected (len - 1)
    omega
  · rw [if_pos (by omega)]

theorem clamped_clampScroll (selected offset vis len : ℕ) :
    Clamped selected offset vis len (clampScroll selected offset vis len).1
      (clampScroll selected offset vis len).2 := by
  by_cases h : 0 < vis ∧ vis < len
  · obtain ⟨hvis, hlen⟩ := h
    rw [clampScroll_of_lt hvis hlen]
    -- The arguments only matter as the row and the offset that they are cut down to.
    obtain ⟨row, hrow⟩ : ∃ row, row = min selected (len - 1) := ⟨_, rfl⟩
    obtain ⟨start, hstart⟩ : ∃ start, start = min offset (len - vis) := ⟨_, rfl⟩
    have hrow' : row ≤ len - 1 := hrow ▸ Nat.min_le_right ..
    have hstart' : start ≤ len - vis := hstart ▸ Nat.min_le_right ..
    rw [← hrow, ← hstart]
    refine ⟨fun _ => hrow, fun _ _ => ⟨?_, ?_, ?_⟩, fun _ _ => ?_,
      fun hno => absurd ⟨hvis, hlen⟩ hno⟩
    · exact Nat.max_le.mpr ⟨by omega, Nat.le_trans (Nat.min_le_left ..) hstart'⟩
    · exact Nat.max_le.mpr ⟨by omega, Nat.min_le_right ..⟩
    · have hlow : row + 1 - vis ≤ max (row + 1 - vis) (min start row) := Nat.le_max_left ..
      show row < max (row + 1 - vis) (min start row) + vis
      omega
    · -- The offset is the one of the range that is nearest to the old one.
      rintro o ⟨hpage, habove, hbelow⟩ hne
      rw [← hstart]
      simp only [Nat.dist] at hne ⊢
      omega
  · rw [clampScroll_of_fits h]
    refine ⟨fun _ => rfl, fun hvis hlen => absurd ⟨hvis, hlen⟩ h, ?_, fun _ => rfl⟩
    intro hvis hlen
    exact absurd ⟨hvis, hlen⟩ h

/-- A window that shows the cursor stays where it is. -/
theorem clampScroll_of_showsCursor {selected offset vis len : ℕ} (hvis : 0 < vis) (hlen : vis < len)
    (hselected : selected ≤ len - 1) (h : ShowsCursor selected vis len offset) :
    clampScroll selected offset vis len = (selected, offset) := by
  have hbelow := h.below
  rw [clampScroll_of_lt hvis hlen, Nat.min_eq_left hselected, Nat.min_eq_left h.page,
    Nat.min_eq_left h.above, Nat.max_eq_right (by omega)]

/-- **Clamping twice is clamping once.** -/
theorem clampScroll_clampScroll (selected offset vis len : ℕ) :
    clampScroll (clampScroll selected offset vis len).1 (clampScroll selected offset vis len).2
      vis len = clampScroll selected offset vis len := by
  have hclamped := clamped_clampScroll selected offset vis len
  by_cases h : 0 < vis ∧ vis < len
  · obtain ⟨hvis, hlen⟩ := h
    refine clampScroll_of_showsCursor hvis hlen ?_ (hclamped.window hvis hlen)
    rw [hclamped.cursor (by omega)]
    exact Nat.min_le_right ..
  · rw [clampScroll_of_fits h, clampScroll_of_fits h, Nat.min_eq_left (Nat.min_le_right ..)]

/-! ### The two calls -/

namespace TuiState

/-- The row that a press of an arrow key moves the cursor onto. -/
def nextRow (s : TuiState) (isUp : Bool) : ℕ :=
  if isUp then s.selected - 1 else min (s.selected + 1) (s.view.length - 1)

/-- The state when the cursor has been moved. -/
def moved (s : TuiState) (isUp : Bool) : TuiState :=
  let clamped := clampScroll (s.nextRow isUp) s.scrollOffset s.visibleRows s.view.length
  { s with selected := clamped.1, scrollOffset := clamped.2, selectedPid := s.viewPids[clamped.1]? }

end TuiState

/-- **Moving the cursor in the table.** -/
theorem moveCursor_main {s : TuiState} (hpane : s.activePane = .main) (hview : s.view ≠ [])
    (isUp : Bool) : moveCursor s isUp = done (s.moved isUp) .redraw := by
  have hlen : s.view.length ≠ 0 := by simpa using hview
  simp only [moveCursor, TuiState.moved, hpane]
  rw [if_neg hlen]
  rfl

/-- **The window is where it should be**, whatever the arguments: no arithmetic overflows, the
result is as specified, and clamping it again changes nothing; so what moving the cursor returns
is what drawing the same rows at the same height leaves. -/
theorem clampScroll_correct (selected offset len : ℕ) (numVisibleRows : UInt16) :
    (∀ usizeMax, len ≤ usizeMax →
      clampScrollChecked usizeMax selected offset numVisibleRows len =
        some (clampScroll selected offset numVisibleRows.toNat len)) ∧
    (∃ selected' offset', clampScroll selected offset numVisibleRows.toNat len =
        (selected', offset') ∧
      Clamped selected offset numVisibleRows.toNat len selected' offset' ∧
      clampScroll selected' offset' numVisibleRows.toNat len = (selected', offset')) ∧
    ∀ (s : TuiState) (isUp : Bool) (handled : Handled), s.activePane = .main → s.view ≠ [] →
      moveCursor s isUp = some handled →
      clampScroll handled.state.selected handled.state.scrollOffset handled.state.visibleRows
        handled.state.view.length = (handled.state.selected, handled.state.scrollOffset) := by
  refine ⟨fun _ hlen => clampScrollChecked_eq hlen selected offset numVisibleRows, ?_, ?_⟩
  · exact ⟨_, _, rfl, clamped_clampScroll selected offset numVisibleRows.toNat len,
      clampScroll_clampScroll selected offset numVisibleRows.toNat len⟩
  · intro s isUp handled hpane hview hmove
    rw [moveCursor_main hpane hview] at hmove
    obtain rfl := Option.some.inj hmove
    exact clampScroll_clampScroll _ s.scrollOffset s.visibleRows s.view.length

/-- On a machine whose greatest integer is the number of rows, nothing overflows. -/
theorem clampScroll_correct_small :
    clampScrollChecked 10 100 0 5 10 = some (clampScroll 100 0 5 10) :=
  (clampScroll_correct 100 0 10 5).1 10 (le_refl 10)

/-- Ten rows, a window of five: the cursor is moved down past its bottom, and far beyond the
list. -/
example : clampScroll 7 0 5 10 = (7, 3) ∧ clampScroll 100 0 5 10 = (9, 5) := by decide

end Procnet
