import Procnet.Core.Collect
import Procnet.Core.Ipc

/-!
# The shared state of the daemon

`DaemonState` is what the main loop and the threads of the clients share under a
lock. Its refresh interval is only ever set through a clamp, so the type carries
its bounds; with them the steps of 100 ms never leave the range of a 64-bit
integer (`toNat_interval_add`, `toNat_interval_sub`).

`DaemonState.update` is not total: on `DaemonCommand.run` it panics, and this is
the only command on which it does (`update_eq_none_iff`). Arithmetic is that of the
release profile.
-/

namespace Procnet

open Lib

def DEFAULT_INTERVAL_MILLIS : UInt64 := 1000

def MIN_INTERVAL_MILLIS : UInt64 := 100

def MAX_INTERVAL_MILLIS : UInt64 := 5000

/-- Restricts a value to an interval. -/
def clamp (lo hi n : UInt64) : UInt64 := if n < lo then lo else if hi < n then hi else n

theorem clamp_bounds {lo hi : UInt64} (h : lo ≤ hi) (n : UInt64) :
    lo ≤ clamp lo hi n ∧ clamp lo hi n ≤ hi := by
  unfold clamp
  split_ifs with hlo hhi
  · exact ⟨UInt64.le_refl lo, h⟩
  · exact ⟨h, UInt64.le_refl hi⟩
  · exact ⟨UInt64.not_lt.mp hlo, UInt64.not_lt.mp hhi⟩

/-- The state shared by the main loop and the clients. -/
structure DaemonState where
  /-- Milliseconds the daemon sleeps between two iterations. -/
  interval : UInt64
  /-- Iterations since the start or the last reset. -/
  tick : UInt64
  stats : StatsCollector
  min_le_interval : MIN_INTERVAL_MILLIS ≤ interval
  interval_le_max : interval ≤ MAX_INTERVAL_MILLIS
  deriving DecidableEq

namespace DaemonState

/-- The state the daemon starts in. -/
def new : DaemonState where
  interval := DEFAULT_INTERVAL_MILLIS
  tick := 0
  stats := .new
  min_le_interval := by decide
  interval_le_max := by decide

/-- Sets the interval, as far as its bounds allow. -/
def setInterval (s : DaemonState) (millis : UInt64) : DaemonState :=
  { s with
    interval := clamp MIN_INTERVAL_MILLIS MAX_INTERVAL_MILLIS millis
    min_le_interval := (clamp_bounds (by decide) millis).1
    interval_le_max := (clamp_bounds (by decide) millis).2 }

def advanceTick (s : DaemonState) : DaemonState := { s with tick := s.tick + 1 }

def resetTick (s : DaemonState) : DaemonState := { s with tick := 0 }

/-- Carries out a command; `none` where the code panics. -/
def update (s : DaemonState) : DaemonCommand → Option DaemonState
  | .run => none
  | .reset => some { s with stats := s.stats.reset }.resetTick
  | .interval millis => some (s.setInterval millis)
  | .intervalIncrease => some (s.setInterval (s.interval + 100))
  | .intervalDecrease => some (s.setInterval (s.interval - 100))

/-- **`run` is the only command on which an update panics.** -/
theorem update_eq_none_iff {s : DaemonState} {c : DaemonCommand} :
    s.update c = none ↔ c = .run := by
  cases c <;> simp [update]

theorem interval_bounds (s : DaemonState) :
    100 ≤ s.interval.toNat ∧ s.interval.toNat ≤ 5000 :=
  ⟨UInt64.le_iff_toNat_le.mp s.min_le_interval, UInt64.le_iff_toNat_le.mp s.interval_le_max⟩

/-- **The steps of the interval do not wrap.** -/
theorem toNat_interval_add (s : DaemonState) :
    (s.interval + 100).toNat = s.interval.toNat + 100 := by
  have h := s.interval_bounds
  have h100 : (100 : UInt64).toNat = 100 := rfl
  rw [UInt64.toNat_add, h100]
  omega

theorem toNat_interval_sub (s : DaemonState) :
    (s.interval - 100).toNat = s.interval.toNat - 100 :=
  UInt64.toNat_sub_of_le _ _ s.min_le_interval

end DaemonState

end Procnet
