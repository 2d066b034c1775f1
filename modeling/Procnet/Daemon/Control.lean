import Procnet.Daemon.App

/-!
# What the clients control

The interval and the tick of the daemon over whole runs, in which the main loop iterates and
any number of clients send any commands, one under the lock after the other.

The interval needs no argument about runs: `DaemonState` carries its bounds, and every command
keeps them. The tick does: it counts the snapshots since the last reset
(`ticksSince`), and that is a statement about everything the run has shown (`Daemon.control`).
`control_state` puts the two together.
-/

namespace Procnet

open Lib

/-! ### What a run shows of its control state -/

/-- What a step does with the interval and the tick. -/
inductive ControlObs where
  /-- An iteration builds a snapshot, and how long it waits afterwards, in milliseconds. -/
  | built (snapshot : SnapshotRef) (timeout : UInt64) : ControlObs
  /-- A client has the state updated. -/
  | updated (command : DaemonCommand) : ControlObs
  deriving DecidableEq, Repr

namespace Daemon

/-- The state when an iteration has sampled its processes and advanced its tick. -/
def sampledState (e : Endian) (d : Daemon) (events : List ProcStartEvent) (m : StatsMap) :
    DaemonState :=
  { d.state with stats := ((d.applied events).collectRows e m d.rows).1 }.advanceTick

/-- The snapshot that an iteration builds. -/
def snapshot (e : Endian) (d : Daemon) (events : List ProcStartEvent) (m : StatsMap) :
    SnapshotRef where
  interval := (d.sampledState e events m).interval
  tick := (d.sampledState e events m).tick
  rows := ((d.applied events).collectRows e m d.rows).2
  deadProcs := (d.sampledState e events m).stats.deadProcs

/-- What a step does with the interval and the tick. -/
def control (e : Endian) (d : Daemon) : Step → Option ControlObs
  | .tick (some events) m =>
    if d.poisoned then none
    else some (.built (d.snapshot e events m) (d.sampledState e events m).interval)
  | .client i ok =>
    if d.poisoned then none
    else (d.conns[i]?).bind fun c => (c.step ok).2.map ControlObs.updated
  | .tick none _ | .accept _ | .shutdown => none

variable {e : Endian} {d d' : Daemon}

/-- An iteration serializes its snapshot, and keeps the state it has sampled. -/
theorem runOnce_some (hp : d.poisoned = false) (events : List ProcStartEvent) (m : StatsMap) :
    (d.runOnce e (some events) m).state = d.sampledState e events m ∧
      (d.runOnce e (some events) m).buf =
        (writeMsg SnapshotRef.serialize d.buf (d.snapshot e events m)).1 := by
  have hsnapshot : d.snapshot e events m =
      ⟨(d.sampledState e events m).interval, (d.sampledState e events m).tick,
        ((d.applied events).collectRows e m d.rows).2,
        (d.sampledState e events m).stats.deadProcs⟩ := rfl
  unfold runOnce
  rw [hp, if_neg (by decide), hsnapshot]
  simp only [writeMsg_eq, sampledState]
  split_ifs <;> exact ⟨rfl, rfl⟩

end Daemon

/-- The snapshots built since the last reset. -/
def ticksSince (hist : List ControlObs) : ℕ :=
  hist.foldl (fun n o =>
    match o with
    | .built _ _ => n + 1
    | .updated .reset => 0
    | .updated _ => n) 0

@[simp] theorem ticksSince_built (hist : List ControlObs) (snapshot : SnapshotRef)
    (timeout : UInt64) : ticksSince (hist ++ [.built snapshot timeout]) = ticksSince hist + 1 := by
  rw [ticksSince, List.foldl_append]
  rfl

@[simp] theorem ticksSince_reset (hist : List ControlObs) :
    ticksSince (hist ++ [.updated .reset]) = 0 := by
  rw [ticksSince, List.foldl_append]
  rfl

theorem ticksSince_updated {command : DaemonCommand} (h : command ≠ .reset)
    (hist : List ControlObs) : ticksSince (hist ++ [.updated command]) = ticksSince hist := by
  rw [ticksSince, List.foldl_append]
  cases command with
  | reset => exact absurd rfl h
  | run => rfl
  | interval millis => rfl
  | intervalIncrease => rfl
  | intervalDecrease => rfl

/-! ### The steps -/

namespace DaemonState

variable {s s' : DaemonState} {command : DaemonCommand}

/-- **Only a reset changes anything but the interval.** -/
theorem update_of_ne_reset (hne : command ≠ .reset) (h : s.update command = some s') :
    s'.tick = s.tick ∧ s'.stats = s.stats := by
  cases command with
  | reset => exact absurd rfl hne
  | run => exact absurd h nofun
  | interval millis =>
    obtain rfl := Option.some.inj h
    exact ⟨rfl, rfl⟩
  | intervalIncrease =>
    obtain rfl := Option.some.inj h
    exact ⟨rfl, rfl⟩
  | intervalDecrease =>
    obtain rfl := Option.some.inj h
    exact ⟨rfl, rfl⟩

/-- **A reset changes anything but the interval.** -/
theorem update_reset (h : s.update .reset = some s') :
    s'.interval = s.interval ∧ s'.tick = 0 ∧ s'.stats = s.stats.reset := by
  obtain rfl := Option.some.inj h
  exact ⟨rfl, rfl, rfl⟩

/-- The tick counts the snapshots since the last reset. -/
def Counts (s : DaemonState) (hist : List ControlObs) : Prop :=
  s.tick = UInt64.ofNat (ticksSince hist)

/-- A command that is carried out counts nothing, and a reset starts over. -/
theorem Counts.update {hist : List ControlObs} (hc : s.Counts hist)
    (h : s.update command = some s') : s'.Counts (hist ++ [.updated command]) := by
  by_cases hreset : command = .reset
  · subst hreset
    rw [Counts, ticksSince_reset, (update_reset h).2.1]
    rfl
  · rw [Counts, ticksSince_updated hreset, (update_of_ne_reset hreset h).1]
    exact hc

end DaemonState

namespace Daemon

variable {e : Endian} {d d' : Daemon}

theorem counts_clientStep {hist : List ControlObs} {i : ℕ} {c : Conn} (hc : d.conns[i]? = some c)
    (h : d.state.Counts hist) (ok : Bool) :
    (d.clientStep i ok c).state.Counts (hist ++ (d.control e (.client i ok)).toList) := by
  rcases hstep : c.step ok with ⟨c', _ | command⟩
  · -- Nothing to be carried out has been read.
    have hnone : d.control e (.client i ok) = none := by
      rw [control, hc, Option.bind_some, hstep]
      exact ite_self none
    rw [hnone, clientStep, hstep]
    simpa using h
  · cases hp : d.poisoned with
    | true =>
      -- The lock is poisoned, and the command is dropped.
      have hnone : d.control e (.client i ok) = none := by rw [control, hp, if_pos rfl]
      rw [hnone, clientStep, hstep]
      simpa [pass, hp] using h
    | false =>
      have hsome : d.control e (.client i ok) = some (.updated command) := by
        rw [control, hp, if_neg (by decide), hc, Option.bind_some, hstep]
        rfl
      rw [hsome, clientStep, hstep, Option.toList_some]
      cases hs : d.state.update command with
      | none =>
        -- the thread panics, and the state stays as it is
        obtain rfl := DaemonState.update_eq_none_iff.mp hs
        simp only [pass, hp, hs, Bool.false_eq_true, if_false]
        rw [DaemonState.Counts, ticksSince_updated (by decide)]
        exact h
      | some s =>
        simp only [pass, hp, hs, Bool.false_eq_true, if_false]
        exact h.update hs

/-- The step lemma: the tick goes on counting. -/
theorem counts_step {hist : List ControlObs} {l : Step} (h : d.state.Counts hist)
    (hs : d.step e l = some d') : d'.state.Counts (hist ++ (d.control e l).toList) := by
  rcases step_cases hs with ⟨stream, rfl, rfl⟩ | ⟨i, ok, c, rfl, hc, rfl⟩ |
    ⟨drained, m, rfl, rfl⟩ | ⟨rfl, rfl⟩
  · simpa [control] using h
  · exact counts_clientStep hc h ok
  · cases drained with
    | none =>
      cases hp : d.poisoned <;> simpa [control, runOnce, hp] using h
    | some events =>
      cases hp : d.poisoned with
      | true => simpa [control, runOnce, hp] using h
      | false =>
        have hcount : d.state.tick + 1 = UInt64.ofNat (ticksSince hist + 1) := by
          rw [h, UInt64.ofNat_add]
          rfl
        rw [DaemonState.Counts, (runOnce_some hp events m).1, control, hp, if_neg (by decide),
          Option.toList_some, ticksSince_built]
        exact hcount
  · simpa [control] using h

/-- **Over a run, the tick counts the snapshots since the last reset.** -/
theorem counts_exec {ls : List Step} (h : exec (step e) .new ls = some d) :
    d.state.Counts (observe (step e) (control e) .new ls) :=
  exec_observe (C := fun _ _ => True) (R := fun d hist => d.state.Counts hist)
    (fun _ _ _ _ _ hc hs => counts_step hc hs) (meets_of_forall (fun _ _ => trivial) _ _) rfl h

/-- What is built says what the state was. -/
theorem built_of_control {l : Step} {snapshot : SnapshotRef} {timeout : UInt64}
    (h : d.control e l = some (.built snapshot timeout)) :
    ∃ s : DaemonState, snapshot.interval = s.interval ∧ timeout = s.interval ∧
      snapshot.tick = s.tick ∧ s.tick = d.state.tick + 1 := by
  cases l with
  | tick drained m =>
    cases drained with
    | none => exact absurd h nofun
    | some events =>
      obtain ⟨-, hbuilt⟩ := Option.ite_none_left_eq_some.mp h
      obtain ⟨rfl, rfl⟩ := ControlObs.built.inj (Option.some.inj hbuilt)
      exact ⟨d.sampledState e events m, rfl, rfl, rfl, rfl⟩
  | client i ok =>
    obtain ⟨-, hupd⟩ := Option.ite_none_left_eq_some.mp h
    obtain ⟨c, -, hc⟩ := Option.bind_eq_some_iff.mp hupd
    obtain ⟨command, -, hcommand⟩ := Option.map_eq_some_iff.mp hc
    exact absurd hcommand nofun
  | accept stream => exact absurd h nofun
  | shutdown => exact absurd h nofun

end Daemon

/-- **The control state of the daemon**: in every state of every run of any number of clients
and iterations, whatever the clients send and in whatever order things happen,

* the interval is between 100 and 5000 ms, so that its steps do not wrap; so is the time that
  an iteration waits;
* the tick of a snapshot is the number of snapshots since the start or the last reset;
* a command that is no reset changes the interval at most, and a reset does not change it. -/
theorem control_state (e : Endian) (ls : List Step) (d : Daemon)
    (h : exec (Daemon.step e) .new ls = some d) :
    (100 ≤ d.state.interval.toNat ∧ d.state.interval.toNat ≤ 5000) ∧
    (d.state.interval + 100).toNat = d.state.interval.toNat + 100 ∧
    (d.state.interval - 100).toNat + 100 = d.state.interval.toNat ∧
    (∀ before snapshot timeout after,
      observe (Daemon.step e) (Daemon.control e) .new ls =
        before ++ .built snapshot timeout :: after →
      timeout = snapshot.interval ∧ (100 ≤ timeout.toNat ∧ timeout.toNat ≤ 5000) ∧
      (ticksSince (before ++ [.built snapshot timeout]) < 2 ^ 64 →
        snapshot.tick.toNat = ticksSince (before ++ [.built snapshot timeout]))) ∧
    (∀ command s', command ≠ .reset → d.state.update command = some s' →
      s'.tick = d.state.tick ∧ s'.stats = d.state.stats) ∧
    ∀ s', d.state.update .reset = some s' → s'.interval = d.state.interval := by
  have hbounds := d.state.interval_bounds
  have hsub := d.state.toNat_interval_sub
  refine ⟨hbounds, d.state.toNat_interval_add, by omega, ?_, ?_, ?_⟩
  · intro before snapshot timeout after hhist
    obtain ⟨ls₁, l, -, u, -, -, hu, -, -, rfl, hbuilt, -⟩ := exists_step_of_observe h hhist
    obtain ⟨s, hinterval, rfl, htick, hnext⟩ := Daemon.built_of_control hbuilt
    refine ⟨hinterval.symm, s.interval_bounds, fun hlt => ?_⟩
    have hcount : u.state.tick + 1 =
        UInt64.ofNat (ticksSince (observe (Daemon.step e) (Daemon.control e) .new ls₁) + 1) := by
      rw [Daemon.counts_exec hu, UInt64.ofNat_add]
      rfl
    rw [ticksSince_built] at hlt ⊢
    rw [htick, hnext, hcount, UInt64.toNat_ofNat_of_lt' hlt]
  · intro command s' hne hs
    exact DaemonState.update_of_ne_reset hne hs
  · intro s' hs
    exact (DaemonState.update_reset hs).1

/-- A client that streams, sets the longest interval it can send, and resets. -/
def rawInterval : List Step :=
  [.accept [.bytes 4 [0, 0, 0, 0, 0], .bytes 12 [0, 1, 0, 0, 0, 255, 255, 255, 255, 255, 255, 255,
      255], .bytes 4 [0, 4, 0, 0, 0]],
    .client 0 true, .client 0 true, .client 0 true, .tick (some []) (firstPids 0),
    .tick (some []) (firstPids 0), .client 0 true, .tick (some []) (firstPids 0), .client 0 true,
    .tick (some []) (firstPids 0)]

/-- Its last snapshot is the first one after the reset, with the interval clamped. -/
theorem control_state_raw_interval :
    ∃ d, exec (Daemon.step .little) .new rawInterval = some d ∧ d.state.interval.toNat ≤ 5000 ∧
      ∃ before, observe (Daemon.step .little) (Daemon.control .little) .new rawInterval =
          before ++ .built ⟨5000, 1, [], []⟩ 5000 :: [] ∧
        (1 : UInt64).toNat = ticksSince (before ++ [.built ⟨5000, 1, [], []⟩ 5000]) := by
  obtain ⟨d, hd, -⟩ := exists_exec_of_any (Daemon.step .little) .new rawInterval
    (fun _ => true) (by decide +kernel)
  have hhist : observe (Daemon.step .little) (Daemon.control .little) .new rawInterval =
      [.built ⟨1000, 1, [], []⟩ 1000, .built ⟨1000, 2, [], []⟩ 1000,
        .updated (.interval 18446744073709551615), .built ⟨5000, 3, [], []⟩ 5000,
        .updated .reset] ++ .built ⟨5000, 1, [], []⟩ 5000 :: [] := by decide +kernel
  obtain ⟨hinterval, -, -, hbuilt, -, -⟩ := control_state .little rawInterval d hd
  exact ⟨d, hd, hinterval.2, _, hhist, (hbuilt _ _ _ _ hhist).2.2 (by decide)⟩

end Procnet
