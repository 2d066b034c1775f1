import Procnet.Daemon.Events
import Procnet.Daemon.Sends

/-!
# How much the daemon can hold

A snapshot must fit a length of two bytes, and the daemon ends if one does not. What is in a
snapshot comes from elsewhere: its rows are processes that the kernel's map has, and their names
are read from records of the ring buffer and from `/proc`. So a daemon on a host where there are
never too many of the one and where the other are never too long does not end in this way
(`daemon_capacity`), whatever its clients do and in whatever order things happen.
-/

namespace Procnet

open Lib

/-! ### Names in a collector -/

/-- No name of a collector takes more than some number of bytes. -/
def StatsCollector.NamesWithin (L : ℕ) (c : StatsCollector) : Prop :=
  ∀ i ∈ c.procs ++ c.deadProcs, i.name.utf8ByteSize ≤ L

namespace StatsCollector

variable {e : Endian} {L : ℕ} {c : StatsCollector}

theorem NamesWithin.reset (h : c.NamesWithin L) : c.reset.NamesWithin L := by
  intro i hi
  rw [StatsCollector.reset, List.append_nil] at hi
  obtain ⟨j, hj, rfl⟩ := List.mem_map.mp hi
  exact h j (List.mem_append_left _ hj)

theorem NamesWithin.applyEvent (h : c.NamesWithin L) (hc : c.Distinct) {ev : ProcStartEvent}
    (hev : ev.name.utf8ByteSize ≤ L) : (c.applyEvent ev).NamesWithin L := by
  intro i hi
  rw [deadProcs_applyEvent] at hi
  rcases List.mem_append.mp hi with hi | hi
  · rcases (mem_procs_applyEvent hc).mp hi with ⟨hi, -⟩ | rfl
    · exact h i (List.mem_append_left _ hi)
    · rw [ProcStartEvent.info, utf8ByteSize_makeAsciiLowercase]
      exact hev
  · exact h i (List.mem_append_right _ hi)

theorem NamesWithin.foldl_applyEvent {events : List ProcStartEvent} (h : c.NamesWithin L)
    (hc : c.Distinct) (hevents : ∀ ev ∈ events, ev.name.utf8ByteSize ≤ L) :
    (events.foldl StatsCollector.applyEvent c).NamesWithin L := by
  induction events generalizing c with
  | nil => exact h
  | cons ev events ih =>
    obtain ⟨hev, hevents⟩ := List.forall_mem_cons.mp hevents
    exact ih (h.applyEvent hc hev) (distinct_applyEvent hc ev) hevents

theorem NamesWithin.collectRows (h : c.NamesWithin L) (hc : c.deadProcs.length ≤ DEAD_PROC_LIMIT)
    (m : StatsMap) (out : List StatsRow) : (c.collectRows e m out).1.NamesWithin L := by
  intro i hi
  rcases List.mem_append.mp hi with hi | hi
  · obtain ⟨j, hj, s, -, rfl⟩ := (mem_procs_collectRows out).mp hi
    exact h j (List.mem_append_left _ hj)
  · rw [deadProcs_collectRows hc] at hi
    rcases List.mem_append.mp (List.mem_of_mem_drop hi) with hi | hi
    · exact h i (List.mem_append_right _ hi)
    · exact h i (List.mem_append_left _ (mem_departed.mp hi).1)

/-- **The size of a snapshot**, by the number of its rows and the length of its names. -/
theorem NamesWithin.snapshotSize_le (h : c.NamesWithin L) :
    c.snapshotSize ≤ 32 + c.procs.length * (124 + L) + c.deadProcs.length * (44 + L) := by
  have hsum : ∀ (k : ℕ) (l : List ProcInfo), (∀ i ∈ l, i.name.utf8ByteSize ≤ L) →
      (l.map fun p => k + p.name.utf8ByteSize).sum ≤ l.length * (k + L) := by
    intro k l hl
    rw [← List.length_map (f := fun p : ProcInfo => k + p.name.utf8ByteSize)]
    refine List.sum_le_card_nsmul _ _ fun n hn => ?_
    obtain ⟨i, hi, rfl⟩ := List.mem_map.mp hn
    exact Nat.add_le_add_left (hl i hi) k
  have hlive := hsum 124 c.procs fun i hi => h i (List.mem_append_left _ hi)
  have hdead := hsum 44 c.deadProcs fun i hi => h i (List.mem_append_right _ hi)
  rw [snapshotSize]
  omega

/-- A tick leaves no more processes than the map has pids. -/
theorem length_procs_collectRows_le (hc : c.Distinct) {m : StatsMap} {pids : List UInt32}
    (hpids : ∀ pid, (mergeValuesForPid e m pid).isSome → pid ∈ pids) (out : List StatsRow) :
    (c.collectRows e m out).1.procs.length ≤ pids.length := by
  have hnodup : ((c.collectRows e m out).1.procs.map ProcInfo.pid).Nodup :=
    distinct_collectRows hc out
  rw [← List.length_map (f := ProcInfo.pid)]
  refine (List.subperm_of_subset hnodup fun pid hpid => ?_).length_le
  obtain ⟨i, hi, rfl⟩ := List.mem_map.mp hpid
  obtain ⟨j, -, s, hs, rfl⟩ := (mem_procs_collectRows out).mp hi
  exact hpids j.pid (Option.isSome_iff_exists.mpr ⟨s, hs⟩)

end StatsCollector

/-! ### Over a run -/

/-- A step on a host that has `N` processes at most, and names of `L` bytes at most: what an
iteration drains are events of records, and what it looks up are entries of the map. -/
def Step.Within (e : Endian) (N L : ℕ) : Step → Prop
  | .tick drained m =>
    (∃ records ok, (∀ r ∈ records, r.proc.Within L) ∧
      drained = (EventReader.new.drainAvailable e records ok).2) ∧
    ∃ pids : List UInt32, pids.length ≤ N ∧
      ∀ pid, (mergeValuesForPid e m pid).isSome → pid ∈ pids
  | .accept _ | .client .. | .shutdown => True

namespace Daemon

variable {e : Endian} {d d' : Daemon}

/-- The events of an iteration have no long names. -/
theorem name_le_of_within {N L : ℕ} {events : List ProcStartEvent} {m : StatsMap}
    (h : Step.Within e N L (.tick (some events) m)) (hL : 48 ≤ L) :
    ∀ ev ∈ events, ev.name.utf8ByteSize ≤ L := by
  obtain ⟨⟨records, ok, hrecords, hdrained⟩, -⟩ := h
  intro ev hev
  cases ok with
  | false => cases hdrained
  | true =>
    rw [EventReader.drainAvailable_eq] at hdrained
    obtain rfl := Option.some.inj hdrained
    obtain ⟨r, hr, hev⟩ := List.mem_filterMap.mp hev
    exact utf8ByteSize_name_le (hrecords r hr) hL hev

/-- The step lemma: names stay short. -/
theorem namesWithin_step {N L : ℕ} (hL : 48 ≤ L) {l : Step} (hl : l.Within e N L)
    (hd : d.state.stats.WellFormed ∧ d.state.stats.NamesWithin L) (h : d.step e l = some d') :
    d'.state.stats.WellFormed ∧ d'.state.stats.NamesWithin L := by
  refine ⟨wellFormed_step hd.1 h, ?_⟩
  rcases stats_step h with hs | hs | ⟨events, m, rfl, -, hs⟩
  · exact hs ▸ hd.2
  · exact hs ▸ hd.2.reset
  · have hwell := wellFormed_applied hd.1 events
    rw [hs]
    exact (hd.2.foldl_applyEvent hd.1.distinct (name_le_of_within hl hL)).collectRows hwell.dead_le
      m d.rows

/-- A step on such a host does not make a snapshot oversized. -/
theorem snapshotFits_of_within {N L : ℕ} (hL : 48 ≤ L)
    (hfit : 32 + N * (124 + L) + DEAD_PROC_LIMIT * (44 + L) < 2 ^ 16) {l : Step}
    (hl : l.Within e N L) (hd : d.state.stats.WellFormed ∧ d.state.stats.NamesWithin L) :
    SnapshotFits e d l := by
  cases l with
  | tick drained m =>
    cases drained with
    | none => exact trivial
    | some events =>
      intro hp
      obtain ⟨pids, hpids, hm⟩ := hl.2
      have hwell := wellFormed_applied hd.1 events
      have hnames : ((d.applied events).collectRows e m d.rows).1.NamesWithin L :=
        (hd.2.foldl_applyEvent hd.1.distinct (name_le_of_within hl hL)).collectRows hwell.dead_le
          m d.rows
      have hsize := hnames.snapshotSize_le
      have hprocs := (StatsCollector.length_procs_collectRows_le hwell.distinct hm d.rows).trans
        hpids
      have hdead := (hwell.collectRows e m d.rows).dead_le
      refine hsize.trans_lt (lt_of_le_of_lt ?_ hfit)
      gcongr
  | accept stream => exact trivial
  | client i ok => exact trivial
  | shutdown => exact trivial

end Daemon

/-- **The daemon can hold** `N` processes with names of `L` bytes, if these would fit a snapshot
together with a dead list that is full: in every run in which the map never has more pids and
`/proc` never says longer names, whatever the records of the ring buffer are, how they are
interleaved with the steps of any number of clients, and what the clients send, no snapshot is
oversized. -/
theorem daemon_capacity (e : Endian) {N L : ℕ} (hL : 48 ≤ L)
    (hfit : 32 + N * (124 + L) + DEAD_PROC_LIMIT * (44 + L) < 2 ^ 16) {ls : List Step} {d : Daemon}
    (h : exec (Daemon.step e) .new ls = some d) (hls : ∀ l ∈ ls, l.Within e N L) :
    d.exit ≠ some (.error (.serialize .oversized)) := by
  have hnew : Daemon.new.state.stats.WellFormed ∧ Daemon.new.state.stats.NamesWithin L :=
    ⟨StatsCollector.wellFormed_new, by simp [StatsCollector.NamesWithin, Daemon.new,
      DaemonState.new, StatsCollector.new]⟩
  have hrun := exec_invariant_of_meets (C := fun _ l => l.Within e N L)
    (I := fun d => (d.state.stats.WellFormed ∧ d.state.stats.NamesWithin L) ∧
      d.exit ≠ some (.error (.serialize .oversized)))
    (fun _ _ _ hl hd hs => ⟨Daemon.namesWithin_step hL hl hd.1 hs,
      (Daemon.step_oversized_iff hs).mpr (Daemon.snapshotFits_of_within hL hfit hl hd.1)⟩)
    (meets_of_forall_mem (fun l hl _ => hls l hl) _) ⟨hnew, by simp [Daemon.new]⟩ h
  exact hrun.2

/-- What `/proc` says of a process whose executable has been deleted. -/
def deletedProc : ProcFs where
  exe _ := some (Codec.utf8Bytes "/usr/bin/curl (deleted)")
  comm _ := none

theorem within_deletedProc : deletedProc.Within 265 := by
  refine fun pid => ⟨?_, by simp [deletedProc]⟩
  rintro path hpath
  obtain rfl : Codec.utf8Bytes "/usr/bin/curl (deleted)" = path := by
    simpa [deletedProc] using hpath
  decide +kernel

/-- The map has the first pids only. -/
theorem mem_of_isSome_firstPids {n : ℕ} {pid : UInt32}
    (h : (mergeValuesForPid .little (firstPids n) pid).isSome) :
    pid ∈ (List.range n).map UInt32.ofNat := by
  have hlt : pid.toNat < n := by
    by_contra hlt
    simp [firstPids, mergeValuesForPid_ofValues, hlt] at h
  exact List.mem_map.mpr ⟨pid.toNat, List.mem_range.mpr hlt, UInt32.ofNat_toNat⟩

/-- Its start event is drained, and a client resets the counters. -/
def deletedRun : List Step :=
  [.tick (EventReader.new.drainAvailable .little [⟨deletedProc,
      (cProcStartEvent .little).contents (emitStartEvent 7 (bpfGetCurrentComm []))⟩] true).2
      (firstPids 8),
    .accept [.bytes 6 [4, 0, 1, 0, 0, 0]], .client 0 true, .client 0 true]

/-- There is room for 152 processes, if file names have 255 bytes at most. -/
theorem daemon_capacity_deleted :
    ∃ d, exec (Daemon.step .little) .new deletedRun = some d ∧
      d.state.stats.procs.map ProcInfo.name = ["curl (deleted)"] ∧
      d.exit ≠ some (.error (.serialize .oversized)) := by
  obtain ⟨d, hd, hp⟩ := exists_exec_of_any (Daemon.step .little) .new deletedRun
    (fun d => d.state.stats.procs.map ProcInfo.name = ["curl (deleted)"]) (by decide +kernel)
  refine ⟨d, hd, of_decide_eq_true hp, daemon_capacity (N := 152) (L := 265) .little (by decide)
    (by decide) hd ?_⟩
  simp only [deletedRun, List.forall_mem_cons, Step.Within]
  refine ⟨⟨⟨_, true, ?_, rfl⟩, _, ?_, fun _ => mem_of_isSome_firstPids⟩, by simp⟩
  · simpa using within_deletedProc
  · decide

end Procnet
