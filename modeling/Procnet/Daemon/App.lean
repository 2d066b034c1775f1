import Procnet.Daemon.Server
import Procnet.Lib.Trace

/-!
# The daemon as a whole

The main loop of `procnetd/src/app.rs` and the threads of any number of clients,
around the lock of the shared state. A step (`Daemon.step`) is one iteration of the
main loop, which holds the lock from its first line until its snapshot is
serialized; a new connection; or a step of the thread that reads a connection. What
the clients send, how it is delivered, what the kernel has to say and in which order
all of this happens are up to the environment.

The accept loop is taken to go on: it ends only if it panics, as no thread can be
spawned, and the main loop then returns after its next iteration.

A thread that panics while it holds the lock poisons it, and the main loop ends at
the next iteration. So does it when a snapshot cannot be serialized. Neither is
excluded, and the results say exactly when it happens, over whole runs:

* `daemon_oversized_iff` – the daemon ends with an oversized snapshot exactly when
  some iteration finds too many processes, or too long names, for a length of two
  bytes (`SnapshotFits`).
* `daemon_poisoned_iff` – the lock is poisoned exactly when some client that streams
  already sends `run` again (`ReadsRun`).
-/

namespace Procnet

open Lib

/-- Why the main loop fails. -/
inductive DaemonError where
  /-- The ring buffer of events could not be read. -/
  | event : DaemonError
  | mutexPoison : DaemonError
  | serialize (source : MsgSendError) : DaemonError
  deriving DecidableEq, Repr

/-- The daemon between two steps. -/
structure Daemon where
  state : DaemonState
  /-- Whether a thread has panicked with the lock held. -/
  poisoned : Bool
  /-- The connections accepted so far. -/
  conns : List Conn
  /-- The row buffer of the main loop. -/
  rows : List StatsRow
  /-- The message buffer of the main loop. -/
  buf : List UInt8
  /-- What the main loop returned, once it has. -/
  exit : Option (Except DaemonError Unit)

/-- What can happen next. -/
inductive Step where
  /-- A client connects; what its stream will deliver. -/
  | accept (stream : Source) : Step
  /-- A step of the thread that reads a connection. -/
  | client (i : ℕ) (ok : Bool) : Step
  /-- An iteration of the main loop: the events it drains, if that works, and the
  stats map it sees. -/
  | tick (drained : Option (List ProcStartEvent)) (statsMap : StatsMap) : Step
  /-- The main loop is told to shut down. -/
  | shutdown : Step

namespace Daemon

/-- The daemon at its start. -/
def new : Daemon := ⟨.new, false, [], [], [], none⟩

/-- A thread takes the lock and carries out a command. -/
def pass (d : Daemon) (i : ℕ) (c : Conn) (msg : DaemonCommand) : Daemon :=
  if d.poisoned then { d with conns := d.conns.set i .closed }
  else
    match d.state.update msg with
    | some state => { d with state := state, conns := d.conns.set i c }
    | none => { d with poisoned := true, conns := d.conns.set i .closed }

/-- A step of the thread that reads a connection. -/
def clientStep (d : Daemon) (i : ℕ) (ok : Bool) (c : Conn) : Daemon :=
  match c.step ok with
  | (c', none) => { d with conns := d.conns.set i c' }
  | (c', some msg) => d.pass i c' msg

/-- The collector when an iteration has applied the drained events. -/
def applied (d : Daemon) (events : List ProcStartEvent) : StatsCollector :=
  events.foldl StatsCollector.applyEvent d.state.stats

/-- An iteration of the main loop. -/
def runOnce (e : Endian) (d : Daemon) (drained : Option (List ProcStartEvent))
    (statsMap : StatsMap) : Daemon :=
  if d.poisoned then { d with exit := some (.error .mutexPoison) }
  else
    match drained with
    | none => { d with exit := some (.error .event) }
    | some events =>
      let (stats, rows) := (d.applied events).collectRows e statsMap d.rows
      let state := { d.state with stats := stats }.advanceTick
      let snapshot : SnapshotRef := ⟨state.interval, state.tick, rows, state.stats.deadProcs⟩
      match writeMsg SnapshotRef.serialize d.buf snapshot with
      | (buf, .ok ()) => { d with state := state, rows := rows, buf := buf }
      | (buf, .error err) =>
        { d with state := state, rows := rows, buf := buf, exit := some (.error (.serialize err)) }

/-- One step of the daemon, as long as the main loop runs. -/
def step (e : Endian) (d : Daemon) (l : Step) : Option Daemon :=
  if d.exit.isSome then none
  else
    match l with
    | .accept stream => some { d with conns := d.conns ++ [.opening stream] }
    | .client i ok => (d.conns[i]?).map (d.clientStep i ok)
    | .tick drained statsMap => some (d.runOnce e drained statsMap)
    | .shutdown => some { d with exit := some (.ok ()) }

end Daemon

/-! ### The size of a snapshot -/

namespace StatsCollector

variable {e : Endian} {m : StatsMap} {c : StatsCollector}

/-- The bytes of the snapshot of a collector that has just been sampled: it has a row
for every process. -/
def snapshotSize (c : StatsCollector) : ℕ :=
  32 + (c.procs.map fun p => 124 + p.name.utf8ByteSize).sum +
    (c.deadProcs.map fun p => 44 + p.name.utf8ByteSize).sum

/-- A tick has the rows of the processes it leaves, in the same order. -/
theorem map_name_rows_collectRows (c : StatsCollector) (out : List StatsRow) :
    (c.collectRows e m out).2.map StatsRow.name =
      (c.collectRows e m out).1.procs.map ProcInfo.name := by
  simp only [collectRows_eq]
  induction c.order e m with
  | nil => rfl
  | cons i l ih => cases hi : mergeValuesForPid e m i.pid <;> simp [sample, sampleRow, hi, ih,
      ProcInfo.row, ProcInfo.sampled]

/-- **The payload of a tick has the size of its snapshot.** -/
theorem length_serialize_collectRows (c : StatsCollector) (out : List StatsRow)
    (interval tick : UInt64) :
    (SnapshotRef.serialize ⟨interval, tick, (c.collectRows e m out).2,
      (c.collectRows e m out).1.deadProcs⟩).length = (c.collectRows e m out).1.snapshotSize := by
  have hrows : ((c.collectRows e m out).2.map fun r => 124 + r.name.utf8ByteSize) =
      (c.collectRows e m out).1.procs.map fun p => 124 + p.name.utf8ByteSize := by
    have h := congrArg (List.map fun n : String => 124 + n.utf8ByteSize)
      (map_name_rows_collectRows (e := e) (m := m) c out)
    simpa only [List.map_map, Function.comp_def] using h
  rw [length_serialize_snapshotRef, snapshotSize, hrows]

/-- A tick that finds every process does not change the size. -/
theorem snapshotSize_collectRows (halive : ∀ i ∈ c.procs, isAlive e m i = true)
    (out : List StatsRow) : (c.collectRows e m out).1.snapshotSize = c.snapshotSize := by
  have hdeparted : c.departed e m = [] := by
    refine List.filter_eq_nil_iff.mpr fun i hi => ?_
    simp [halive i ((order_perm c).mem_iff.mp hi)]
  have hprocs : (c.collectRows e m out).1.procs.Perm (c.procs.filterMap (sample e m)) :=
    perm_procs_collectRows c out
  have hsizes : ∀ l : List ProcInfo, (∀ i ∈ l, isAlive e m i = true) →
      ((l.filterMap (sample e m)).map fun p => 124 + p.name.utf8ByteSize) =
        l.map fun p => 124 + p.name.utf8ByteSize := by
    intro l hl
    induction l with
    | nil => rfl
    | cons i l ih =>
      obtain ⟨s, hs⟩ := Option.isSome_iff_exists.mp (hl i (List.mem_cons_self ..))
      have hrest := ih fun j hj => hl j (List.mem_cons_of_mem _ hj)
      simpa [sample, hs, ProcInfo.sampled] using hrest
  have hdead : (c.collectRows e m out).1.deadProcs = c.deadProcs := by
    rw [collectRows_eq, hdeparted]
    rfl
  rw [snapshotSize, snapshotSize, hdead, (hprocs.map _).sum_eq, hsizes _ halive]

/-- New processes add the size of their rows. -/
theorem snapshotSize_foldl_applyEvent {events : List ProcStartEvent}
    (hnodup : (events.map ProcStartEvent.pid).Nodup)
    (hfresh : ∀ ev ∈ events, ∀ i ∈ c.procs, i.pid ≠ ev.pid) :
    (events.foldl applyEvent c).snapshotSize =
      c.snapshotSize + (events.map fun ev => 124 + ev.name.utf8ByteSize).sum := by
  have hinfo : ((events.map ProcStartEvent.info).map fun p => 124 + p.name.utf8ByteSize) =
      events.map fun ev => 124 + ev.name.utf8ByteSize := by
    rw [List.map_map]
    refine List.map_congr_left fun ev _ => ?_
    simp [ProcStartEvent.info, utf8ByteSize_makeAsciiLowercase]
  simp only [foldl_applyEvent_fresh hnodup hfresh, snapshotSize, List.map_append,
    List.sum_append, hinfo]
  omega

end StatsCollector

/-! ### Oversized snapshots -/

/-- A step that does not make the daemon serialize more than a length of two bytes
can say. -/
def SnapshotFits (e : Endian) (d : Daemon) : Step → Prop
  | .tick (some events) statsMap =>
    d.poisoned = false →
      ((d.applied events).collectRows e statsMap d.rows).1.snapshotSize < 2 ^ 16
  | .tick none _ | .accept _ | .client .. | .shutdown => True

namespace Daemon

variable {e : Endian} {d d' : Daemon}

/-- **What an iteration that serializes can do.** -/
theorem runOnce_cases (hp : d.poisoned = false) (events : List ProcStartEvent) (m : StatsMap) :
    (((d.applied events).collectRows e m d.rows).1.snapshotSize < 2 ^ 16 ∧
      (d.runOnce e (some events) m).exit = d.exit) ∨
    (¬ ((d.applied events).collectRows e m d.rows).1.snapshotSize < 2 ^ 16 ∧
      (d.runOnce e (some events) m).exit = some (.error (.serialize .oversized))) := by
  unfold runOnce
  rw [hp, if_neg (by decide)]
  simp only [writeMsg_eq, DaemonState.advanceTick, StatsCollector.length_serialize_collectRows]
  split_ifs with h
  · exact Or.inl ⟨h, rfl⟩
  · exact Or.inr ⟨h, rfl⟩

/-- An iteration that is not stopped leaves the sampled collector. -/
theorem stats_runOnce (hp : d.poisoned = false) (events : List ProcStartEvent) (m : StatsMap) :
    (d.runOnce e (some events) m).poisoned = false ∧
      (d.runOnce e (some events) m).state.stats =
        ((d.applied events).collectRows e m d.rows).1 := by
  unfold runOnce
  rw [hp, if_neg (by decide)]
  simp only [writeMsg_eq]
  split_ifs <;> exact ⟨rfl, rfl⟩

/-- An iteration leaves the connections alone. -/
theorem conns_runOnce (d : Daemon) (drained : Option (List ProcStartEvent)) (m : StatsMap) :
    (d.runOnce e drained m).conns = d.conns := by
  unfold runOnce
  split
  · rfl
  · split
    · rfl
    · simp only
      split <;> rfl

/-- **An iteration that finds all its processes, new ones among them**, adds the size of
their rows to its snapshot. -/
theorem runOnce_fresh (hp : d.poisoned = false) {events : List ProcStartEvent} {m : StatsMap}
    (hnodup : (events.map ProcStartEvent.pid).Nodup)
    (hfresh : ∀ ev ∈ events, ∀ i ∈ d.state.stats.procs, i.pid ≠ ev.pid)
    (hold : ∀ i ∈ d.state.stats.procs, isAlive e m i = true)
    (hnew : ∀ ev ∈ events, isAlive e m ev.info = true) :
    ((d.applied events).collectRows e m d.rows).1.snapshotSize =
        d.state.stats.snapshotSize + (events.map fun ev => 124 + ev.name.utf8ByteSize).sum ∧
      ∀ i ∈ (d.runOnce e (some events) m).state.stats.procs,
        (∃ j ∈ d.state.stats.procs, j.pid = i.pid) ∨ ∃ ev ∈ events, ev.pid = i.pid := by
  have happlied : d.applied events = _ := StatsCollector.foldl_applyEvent_fresh hnodup hfresh
  have hprocs : ∀ i ∈ (d.applied events).procs,
      i ∈ d.state.stats.procs ∨ ∃ ev ∈ events, ev.info = i := by
    intro i hi
    rw [happlied] at hi
    exact (List.mem_append.mp hi).imp_right List.mem_map.mp
  constructor
  · rw [StatsCollector.snapshotSize_collectRows fun i hi => ?_]
    · exact StatsCollector.snapshotSize_foldl_applyEvent hnodup hfresh
    · rcases hprocs i hi with hi | ⟨ev, hev, rfl⟩
      · exact hold i hi
      · exact hnew ev hev
  · intro i hi
    rw [(stats_runOnce hp events m).2] at hi
    obtain ⟨j, hj, -, -, rfl⟩ := (StatsCollector.mem_procs_collectRows _).mp hi
    rcases hprocs j hj with hj | ⟨ev, hev, rfl⟩
    · exact Or.inl ⟨j, hj, rfl⟩
    · exact Or.inr ⟨ev, hev, rfl⟩

theorem exit_pass (d : Daemon) (i : ℕ) (c : Conn) (msg : DaemonCommand) :
    (d.pass i c msg).exit = d.exit := by
  unfold pass
  split
  · rfl
  · split <;> rfl

/-- A client does not end the main loop by itself. -/
theorem exit_clientStep (d : Daemon) (i : ℕ) (ok : Bool) (c : Conn) :
    (d.clientStep i ok c).exit = d.exit := by
  unfold clientStep
  split
  · rfl
  · exact exit_pass d i _ _

/-- The main loop takes no step after it has returned. -/
theorem exit_eq_none_of_step {l : Step} (h : d.step e l = some d') : d.exit = none := by
  unfold step at h
  split at h
  · cases h
  · rename_i hexit
    simpa using hexit

/-- **What a step can do.** -/
theorem step_cases {l : Step} (h : d.step e l = some d') :
    (∃ stream, l = .accept stream ∧ d' = { d with conns := d.conns ++ [.opening stream] }) ∨
    (∃ i ok c, l = .client i ok ∧ d.conns[i]? = some c ∧ d' = d.clientStep i ok c) ∨
    (∃ drained m, l = .tick drained m ∧ d' = d.runOnce e drained m) ∨
    (l = .shutdown ∧ d' = { d with exit := some (.ok ()) }) := by
  have hexit := exit_eq_none_of_step h
  unfold step at h
  rw [if_neg (by simp [hexit])] at h
  cases l with
  | accept stream => exact Or.inl ⟨stream, rfl, (Option.some.inj h).symm⟩
  | client i ok =>
    obtain ⟨c, hc, rfl⟩ := Option.map_eq_some_iff.mp h
    exact Or.inr (Or.inl ⟨i, ok, c, rfl, hc, rfl⟩)
  | tick drained m => exact Or.inr (Or.inr (Or.inl ⟨drained, m, rfl, (Option.some.inj h).symm⟩))
  | shutdown => exact Or.inr (Or.inr (Or.inr ⟨rfl, (Option.some.inj h).symm⟩))

/-- The step lemma: exactly a step that does not fit makes the snapshot
oversized. -/
theorem step_oversized_iff {l : Step} (h : d.step e l = some d') :
    d'.exit ≠ some (.error (.serialize .oversized)) ↔ SnapshotFits e d l := by
  have hexit := exit_eq_none_of_step h
  rcases step_cases h with ⟨stream, rfl, rfl⟩ | ⟨i, ok, c, rfl, -, rfl⟩ | ⟨drained, m, rfl, rfl⟩ |
    ⟨rfl, rfl⟩
  · simp [SnapshotFits, hexit]
  · simp [SnapshotFits, exit_clientStep, hexit]
  · cases hp : d.poisoned with
    | true => cases drained <;> simp [SnapshotFits, runOnce, hp]
    | false =>
      cases drained with
      | none => simp [SnapshotFits, runOnce, hp]
      | some events =>
        rw [SnapshotFits]
        rcases runOnce_cases (e := e) hp events m with ⟨hfit, hr⟩ | ⟨hfit, hr⟩
        · exact iff_of_true (by simp [hr, hexit]) fun _ => hfit
        · exact iff_of_false (by simp [hr]) fun hall => hfit (hall hp)
  · simp [SnapshotFits]

end Daemon

/-- **When the daemon ends with an oversized snapshot**: in a run of any number of
clients and iterations, exactly when the processes that some iteration tracks, with
their names, do not fit a length of two bytes. -/
theorem daemon_oversized_iff (e : Endian) (ls : List Step) (d : Daemon)
    (h : exec (Daemon.step e) .new ls = some d) :
    d.exit ≠ some (.error (.serialize .oversized)) ↔
      Meets (Daemon.step e) (SnapshotFits e) .new ls := by
  refine exec_good_iff_meets (G := fun d => d.exit ≠ some (.error (.serialize .oversized)))
    (fun s l s' _ hs => Daemon.step_oversized_iff hs) (fun s l s' hbad hs => ?_)
    (by simp [Daemon.new]) h
  rw [Daemon.exit_eq_none_of_step hs] at hbad
  exact absurd nofun hbad

/-- The stats map has an entry for each of the first `n` pids. -/
def firstPids (n : ℕ) : StatsMap :=
  .ofValues .little fun pid => if pid.toNat < n then some [default] else none

/-- One process is no problem. -/
theorem daemon_one_process :
    ∃ d, exec (Daemon.step .little) .new [.tick (some [⟨7, "curl"⟩]) (firstPids 8)] = some d ∧
      d.exit ≠ some (.error (.serialize .oversized)) := by
  refine ⟨_, rfl, (daemon_oversized_iff .little
    [.tick (some [⟨7, "curl"⟩]) (firstPids 8)] _ rfl).mpr ⟨fun _ => ?_, fun _ _ => trivial⟩⟩
  decide +kernel

/-- The longest name a file can have. -/
def longName : String := String.ofList (List.replicate 255 'a')

/-- `n` processes with the longest name start, from the pid `start` on. -/
def startEvents (start n : ℕ) : List ProcStartEvent :=
  (List.range' start n).map fun k => ⟨UInt32.ofNat k, longName⟩

theorem sum_startEvents (start n : ℕ) :
    ((startEvents start n).map fun ev => 124 + ev.name.utf8ByteSize).sum = n * 379 := by
  have hlen : ∀ n, String.utf8Len (List.replicate n 'a') = n := by
    intro n
    induction n with
    | zero => rfl
    | succ n ih =>
      rw [List.replicate_succ, String.utf8Len_cons, ih]
      rfl
  have hname : longName.utf8ByteSize = 255 := (String.utf8ByteSize_ofList _).trans (hlen 255)
  simp [startEvents, Function.comp_def, hname]

theorem pid_of_mem_startEvents {start n : ℕ} (h : start + n ≤ 2 ^ 32) {ev : ProcStartEvent}
    (hev : ev ∈ startEvents start n) : start ≤ ev.pid.toNat ∧ ev.pid.toNat < start + n := by
  obtain ⟨k, hk, rfl⟩ := List.mem_map.mp hev
  obtain ⟨hle, hlt⟩ := List.mem_range'_1.mp hk
  have hval : (UInt32.ofNat k).toNat = k := UInt32.toNat_ofNat_of_lt' (hlt.trans_le h)
  exact ⟨by rw [hval]; exact hle, by rw [hval]; exact hlt⟩

theorem isAlive_firstPids {n : ℕ} {i : ProcInfo} (h : i.pid.toNat < n) :
    isAlive .little (firstPids n) i = true := by
  simp [isAlive, firstPids, mergeValuesForPid_ofValues, h]

theorem nodup_startEvents {start n : ℕ} (h : start + n ≤ 2 ^ 32) :
    ((startEvents start n).map ProcStartEvent.pid).Nodup := by
  rw [startEvents, List.map_map]
  refine List.Nodup.map_on (fun a ha b hb hab => ?_) List.nodup_range'
  obtain ⟨-, ha'⟩ := List.mem_range'_1.mp ha
  obtain ⟨-, hb'⟩ := List.mem_range'_1.mp hb
  have heq : (UInt32.ofNat a).toNat = (UInt32.ofNat b).toNat := congrArg UInt32.toNat hab
  rwa [UInt32.toNat_ofNat_of_lt' (ha'.trans_le h), UInt32.toNat_ofNat_of_lt' (hb'.trans_le h)]
    at heq

/-- An iteration in which `n` processes start, after those with smaller pids. -/
theorem runOnce_startEvents {d : Daemon} (start n : ℕ) (h : start + n ≤ 2 ^ 32)
    (hp : d.poisoned = false) (hpids : ∀ i ∈ d.state.stats.procs, i.pid.toNat < start) :
    ((d.applied (startEvents start n)).collectRows .little (firstPids (start + n))
        d.rows).1.snapshotSize = d.state.stats.snapshotSize + n * 379 ∧
      ∀ i ∈ (d.runOnce .little (some (startEvents start n))
        (firstPids (start + n))).state.stats.procs, i.pid.toNat < start + n := by
  have hev : ∀ ev ∈ startEvents start n, start ≤ ev.pid.toNat ∧ ev.pid.toNat < start + n :=
    fun ev hev => pid_of_mem_startEvents h hev
  obtain ⟨hsize, hprocs⟩ := Daemon.runOnce_fresh (e := .little) (m := firstPids (start + n)) hp
    (nodup_startEvents h)
    (fun ev hmem i hi heq => by
      have hlt := hpids i hi
      rw [heq] at hlt
      exact absurd (hev ev hmem).1 (by omega))
    (fun i hi => isAlive_firstPids (by have := hpids i hi; omega))
    (fun ev hmem => isAlive_firstPids (hev ev hmem).2)
  rw [sum_startEvents] at hsize
  refine ⟨hsize, fun i hi => ?_⟩
  rcases hprocs i hi with ⟨j, hj, hpid⟩ | ⟨ev, hmem, hpid⟩
  · have hlt := hpids j hj
    rw [← hpid]
    omega
  · rw [← hpid]
    exact (hev ev hmem).2

/-- **The daemon ends with an oversized snapshot**: 200 processes of 512 possible ones, with
names of 255 bytes, are enough. -/
theorem daemon_oversized :
    ∃ d, exec (Daemon.step .little) .new
        [.tick (some (startEvents 0 100)) (firstPids (0 + 100)),
          .tick (some (startEvents 100 100)) (firstPids (100 + 100))] = some d ∧
      d.exit = some (.error (.serialize .oversized)) := by
  -- The first iteration finds 100 processes, and they fit.
  obtain ⟨hsize₁, hpids₁⟩ := runOnce_startEvents (d := .new) 0 100 (by decide) rfl
    (by simp [Daemon.new, DaemonState.new, StatsCollector.new])
  obtain ⟨hp₁, hstats₁⟩ := Daemon.stats_runOnce (e := .little) (d := .new) rfl
    (startEvents 0 100) (firstPids (0 + 100))
  have hcases₁ := Daemon.runOnce_cases (e := .little) (d := .new) rfl (startEvents 0 100)
    (firstPids (0 + 100))
  have hnew : Daemon.new.state.stats.snapshotSize = 32 := rfl
  rw [hnew] at hsize₁
  have hstep₁ : Daemon.step .little .new (.tick (some (startEvents 0 100)) (firstPids (0 + 100))) =
      some (Daemon.new.runOnce .little (some (startEvents 0 100)) (firstPids (0 + 100))) := by
    rw [Daemon.step, if_neg (by decide)]
  generalize Daemon.new.runOnce .little (some (startEvents 0 100)) (firstPids (0 + 100)) = d₁ at *
  rw [← hstats₁] at hsize₁ hcases₁
  have hexit₁ : d₁.exit = none := by
    rcases hcases₁ with ⟨-, h⟩ | ⟨hbig, -⟩
    · exact h
    · omega
  -- The second one finds 100 more, and they do not.
  obtain ⟨hsize₂, -⟩ := runOnce_startEvents 100 100 (by decide) hp₁ hpids₁
  refine ⟨d₁.runOnce .little (some (startEvents 100 100)) (firstPids (100 + 100)), ?_, ?_⟩
  · refine exec_cons_eq_some.mpr ⟨d₁, hstep₁, exec_cons_eq_some.mpr ⟨_, ?_, rfl⟩⟩
    rw [Daemon.step, if_neg (by simp [hexit₁])]
  · rcases Daemon.runOnce_cases (e := .little) hp₁ (startEvents 100 100) (firstPids (100 + 100))
      with ⟨hsmall, -⟩ | ⟨-, h⟩
    · omega
    · exact h

/-! ### A poisoned lock -/

/-- A step in which the loop of a streaming client reads `run`. -/
def ReadsRun (d : Daemon) : Step → Prop
  | .client i _ => ∃ reader reader', d.conns[i]? = some (.streaming reader) ∧
      readMsg DaemonCommand.codec.decode reader = .ok (.run, reader')
  | .accept _ | .tick .. | .shutdown => False

/-- The lock is not poisoned, and the main loop has not ended because it was. -/
def Unpoisoned (d : Daemon) : Prop :=
  d.poisoned = false ∧ d.exit ≠ some (.error .mutexPoison)

/-- **What a thread can do with a connection**: only the loop of a streaming client passes
`run` to the shared state. -/
theorem Conn.step_eq_run_iff {ok : Bool} {c : Conn} :
    (c.step ok).2 = some .run ↔ ∃ reader reader', c = .streaming reader ∧
      readMsg DaemonCommand.codec.decode reader = .ok (.run, reader') := by
  cases c with
  | opening stream => simp [step]
  | handover stream => simp [step]
  | closed => simp [step]
  | initial reader =>
    cases h : readMsg DaemonCommand.codec.decode reader with
    | error err => simp [step, h]
    | ok p =>
      obtain ⟨msg, r⟩ := p
      by_cases hmsg : msg = .run <;> simp [step, h, hmsg]
  | streaming reader =>
    cases h : readMsg DaemonCommand.codec.decode reader with
    | error err => simp [step, h]
    | ok p => obtain ⟨msg, r⟩ := p; simp [step, h]

namespace Daemon

variable {e : Endian} {d d' : Daemon}

/-- A thread poisons the lock when the command it passes is `run`. -/
theorem poisoned_clientStep (hp : d.poisoned = false) (i : ℕ) (ok : Bool) (c : Conn) :
    (d.clientStep i ok c).poisoned = true ↔ (c.step ok).2 = some .run := by
  rcases h : c.step ok with ⟨c', _ | msg⟩
  · simp [clientStep, h, hp]
  · cases hs : d.state.update msg with
    | none =>
      obtain rfl := DaemonState.update_eq_none_iff.mp hs
      simp [clientStep, h, pass, hp, hs]
    | some s =>
      have hmsg : msg ≠ .run := fun hrun => by simp [DaemonState.update_eq_none_iff.mpr hrun] at hs
      simp [clientStep, h, pass, hp, hs, hmsg]

/-- A poisoned lock stays poisoned. -/
theorem poisoned_clientStep_of_poisoned (hp : d.poisoned = true) (i : ℕ) (ok : Bool) (c : Conn) :
    (d.clientStep i ok c).poisoned = true := by
  rcases h : c.step ok with ⟨c', _ | msg⟩ <;> simp [clientStep, h, pass, hp]

theorem unpoisoned_runOnce (hexit : d.exit = none) (drained : Option (List ProcStartEvent))
    (m : StatsMap) : Unpoisoned (d.runOnce e drained m) ↔ d.poisoned = false := by
  cases hp : d.poisoned with
  | true => simp [Unpoisoned, runOnce, hp]
  | false =>
    cases drained with
    | none => simp [Unpoisoned, runOnce, hp]
    | some events =>
      have hlive := (stats_runOnce (e := e) hp events m).1
      rcases runOnce_cases (e := e) hp events m with ⟨-, h⟩ | ⟨-, h⟩ <;>
        simp [Unpoisoned, hlive, h, hexit]

/-- The step lemma: exactly a step that reads `run` poisons the lock. -/
theorem step_unpoisoned_iff {l : Step} (hd : Unpoisoned d) (h : d.step e l = some d') :
    Unpoisoned d' ↔ ¬ ReadsRun d l := by
  have hexit := exit_eq_none_of_step h
  rcases step_cases h with ⟨stream, rfl, rfl⟩ | ⟨i, ok, c, rfl, hc, rfl⟩ | ⟨drained, m, rfl, rfl⟩ |
    ⟨rfl, rfl⟩
  · simp [ReadsRun, Unpoisoned, hd.1, hexit]
  · have hrun : ReadsRun d (.client i ok) ↔ (c.step ok).2 = some .run := by
      rw [Conn.step_eq_run_iff, ReadsRun, hc]
      simp only [Option.some.injEq]
    rw [hrun, ← poisoned_clientStep hd.1 i ok c, Unpoisoned, exit_clientStep, hexit]
    simp
  · rw [unpoisoned_runOnce hexit]
    simp [ReadsRun, hd.1]
  · simp [ReadsRun, Unpoisoned, hd.1]

theorem not_unpoisoned_of_step {l : Step} (hd : ¬ Unpoisoned d) (h : d.step e l = some d') :
    ¬ Unpoisoned d' := by
  have hexit := exit_eq_none_of_step h
  have hp : d.poisoned = true := by simpa [Unpoisoned, hexit] using hd
  rcases step_cases h with ⟨stream, rfl, rfl⟩ | ⟨i, ok, c, rfl, hc, rfl⟩ | ⟨drained, m, rfl, rfl⟩ |
    ⟨rfl, rfl⟩
  · simp [Unpoisoned, hp]
  · simp [Unpoisoned, poisoned_clientStep_of_poisoned hp]
  · rw [unpoisoned_runOnce hexit]
    simp [hp]
  · simp [Unpoisoned, hp]

end Daemon

/-- **When a client poisons the lock**: in a run of any number of clients, whatever they
send and in whatever order things happen, exactly when the loop of a streaming client
reads `run`. -/
theorem daemon_poisoned_iff (e : Endian) (ls : List Step) (d : Daemon)
    (h : exec (Daemon.step e) .new ls = some d) :
    Unpoisoned d ↔ Meets (Daemon.step e) (fun d l => ¬ ReadsRun d l) .new ls :=
  exec_good_iff_meets (fun _ _ _ hd hs => Daemon.step_unpoisoned_iff hd hs)
    (fun _ _ _ hd hs => Daemon.not_unpoisoned_of_step hd hs) (by simp [Unpoisoned, Daemon.new]) h

/-- A client that streams and sends `reset` does no harm. -/
theorem daemon_reset_unpoisoned :
    Meets (Daemon.step .little) (fun d l => ¬ ReadsRun d l) .new
      [.accept [.bytes 4 [0, 0, 0, 0, 0], .bytes 4 [0, 4, 0, 0, 0]], .client 0 true,
        .client 0 true, .client 0 true, .client 0 true] := by
  obtain ⟨d, hd, hp⟩ := exists_exec_of_any (Daemon.step .little) .new
    [.accept [.bytes 4 [0, 0, 0, 0, 0], .bytes 4 [0, 4, 0, 0, 0]], .client 0 true,
      .client 0 true, .client 0 true, .client 0 true]
    (fun d => !d.poisoned && d.exit.isNone) (by decide +kernel)
  obtain ⟨hp, hexit⟩ : d.poisoned = false ∧ d.exit = none := by simpa using hp
  exact (daemon_poisoned_iff .little _ d hd).mp ⟨hp, by simp [hexit]⟩

/-- **A client can poison the lock**: it sends `run` twice, and the next iteration of the
main loop ends the daemon. -/
theorem daemon_poisoned :
    ∃ d, exec (Daemon.step .little) .new
        [.accept [.bytes 4 [0, 0, 0, 0, 0], .bytes 4 [0, 0, 0, 0, 0]], .client 0 true,
          .client 0 true, .client 0 true, .client 0 true, .tick (some []) (firstPids 0)] = some d ∧
      d.poisoned = true ∧ d.exit = some (.error .mutexPoison) := by
  obtain ⟨d, hd, hp⟩ := exists_exec_of_any (Daemon.step .little) .new
    [.accept [.bytes 4 [0, 0, 0, 0, 0], .bytes 4 [0, 0, 0, 0, 0]], .client 0 true,
      .client 0 true, .client 0 true, .client 0 true, .tick (some []) (firstPids 0)]
    (fun d => d.poisoned && decide (d.exit = some (.error .mutexPoison))) (by decide +kernel)
  exact ⟨d, hd, by simpa using hp⟩

end Procnet
