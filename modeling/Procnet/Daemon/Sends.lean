import Procnet.Core.Partition
import Procnet.Daemon.Control

/-!
# The snapshots the daemon sends

What a client can rely on. A snapshot is built by an iteration of the main loop, at the end of a
run in which any number of clients send what they like (`Daemon.Sends`); its rows and its dead
list are those of a collector that is well-formed, since nothing in a run does anything else to
the collector than the operations that keep it so (`wellFormed_exec`).
-/

namespace Procnet

open Lib

namespace Daemon

variable {e : Endian} {d d' : Daemon}

/-- An iteration at the end of some run builds the snapshot, and serializes it. -/
def Sends (e : Endian) (snap : SnapshotData) : Prop :=
  ∃ ls d events m, exec (step e) .new ls = some d ∧ d.exit = none ∧ d.poisoned = false ∧
    (writeMsg SnapshotRef.serialize d.buf (d.snapshot e events m)).2 = .ok () ∧
    snap = (d.snapshot e events m).toData

/-! ### The collector over a run -/

theorem wellFormed_applied (h : d.state.stats.WellFormed) (events : List ProcStartEvent) :
    (d.applied events).WellFormed := by
  show (events.foldl StatsCollector.applyEvent d.state.stats).WellFormed
  generalize d.state.stats = c at h
  induction events generalizing c with
  | nil => exact h
  | cons event events ih => exact ih (c.applyEvent event) (h.applyEvent event)

/-- **A command keeps the collector well-formed**: it resets it, or leaves it alone. -/
theorem wellFormed_update {s s' : DaemonState} {command : DaemonCommand}
    (h : s.stats.WellFormed) (hs : s.update command = some s') : s'.stats.WellFormed := by
  by_cases hreset : command = .reset
  · subst hreset
    rw [(DaemonState.update_reset hs).2.2]
    exact h.reset
  · rw [(DaemonState.update_of_ne_reset hreset hs).2]
    exact h

theorem wellFormed_clientStep (h : d.state.stats.WellFormed) (i : ℕ) (ok : Bool) (c : Conn) :
    (d.clientStep i ok c).state.stats.WellFormed := by
  rcases hstep : c.step ok with ⟨c', _ | command⟩
  · rw [clientStep, hstep]
    exact h
  · rw [clientStep, hstep]
    show (d.pass i c' command).state.stats.WellFormed
    unfold pass
    split
    · exact h
    · cases hs : d.state.update command with
      | none => exact h
      | some s => exact wellFormed_update h hs

/-- The step lemma: every step keeps the collector well-formed. -/
theorem wellFormed_step {l : Step} (h : d.state.stats.WellFormed) (hs : d.step e l = some d') :
    d'.state.stats.WellFormed := by
  rcases step_cases hs with ⟨stream, rfl, rfl⟩ | ⟨i, ok, c, rfl, -, rfl⟩ |
    ⟨drained, m, rfl, rfl⟩ | ⟨rfl, rfl⟩
  · exact h
  · exact wellFormed_clientStep h i ok c
  · cases hp : d.poisoned with
    | true =>
      unfold runOnce
      rw [hp, if_pos rfl]
      exact h
    | false =>
      cases drained with
      | none =>
        unfold runOnce
        rw [hp, if_neg (by decide)]
        exact h
      | some events =>
        rw [(stats_runOnce hp events m).2]
        exact (wellFormed_applied h events).collectRows e m d.rows
  · exact h

/-- **The collector of the daemon is well-formed**, over every run. -/
theorem wellFormed_exec {ls : List Step} (h : exec (step e) .new ls = some d) :
    d.state.stats.WellFormed :=
  exec_invariant (I := fun d => d.state.stats.WellFormed)
    (fun _ _ _ hd hs => wellFormed_step hd hs) StatsCollector.wellFormed_new h

/-- **What a step does to the collector**: nothing, a reset, or what an iteration does. -/
theorem stats_step {l : Step} (h : d.step e l = some d') :
    d'.state.stats = d.state.stats ∨ d'.state.stats = d.state.stats.reset ∨
    ∃ events m, l = .tick (some events) m ∧ d.poisoned = false ∧
      d'.state.stats = ((d.applied events).collectRows e m d.rows).1 := by
  rcases step_cases h with ⟨stream, rfl, rfl⟩ | ⟨i, ok, c, rfl, -, rfl⟩ | ⟨drained, m, rfl, rfl⟩ |
    ⟨rfl, rfl⟩
  · exact Or.inl rfl
  · unfold clientStep
    split
    · exact Or.inl rfl
    · rename_i c' command hc
      unfold pass
      split_ifs
      · exact Or.inl rfl
      · split
        · rename_i state hs
          by_cases hreset : command = .reset
          · subst hreset
            exact Or.inr (Or.inl (DaemonState.update_reset hs).2.2)
          · exact Or.inl (DaemonState.update_of_ne_reset hreset hs).2
        · exact Or.inl rfl
  · cases hp : d.poisoned with
    | true =>
      unfold runOnce
      rw [hp, if_pos rfl]
      exact Or.inl rfl
    | false =>
      cases drained with
      | none =>
        unfold runOnce
        rw [hp, if_neg (by decide)]
        exact Or.inl rfl
      | some events =>
        exact Or.inr (Or.inr ⟨events, m, rfl, rfl, (stats_runOnce hp events m).2⟩)
  · exact Or.inl rfl

/-- **The rows of a snapshot have distinct pids.** -/
theorem Sends.nodup_rows {snap : SnapshotData} (h : Sends e snap) :
    (snap.rows.map StatsRow.pid).Nodup := by
  obtain ⟨ls, d, events, m, hrun, -, -, -, rfl⟩ := h
  have hd := wellFormed_applied (wellFormed_exec hrun) events
  exact StatsCollector.nodup_rows_collectRows hd.distinct d.rows

end Daemon

end Procnet
