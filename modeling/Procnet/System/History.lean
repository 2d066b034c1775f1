import Procnet.Bpf.Ledger
import Procnet.System.Model

/-!
# What a run has shown

The state of the daemon does not say where it comes from. This module records what happens
in a run (`Obs`): the bytes that calls add to entries, the start events that are applied,
what the lookups of `collectRows` find, and resets. The state is then a function of that
history (`Follows`, `follows_exec`): the record of a process is what the events, the lookups
and the resets have made of it (`recordOf`), the dead list holds the last of the processes
that lookups did not find (`deaths`), and an entry holds what has been written to it
(`Kernel.Ledger`).
-/

namespace Procnet

open Lib

variable {n : ℕ}

/-! ### Observations -/

/-- What happens in a step. -/
inductive Obs (n : ℕ) where
  /-- A call adds to an entry. -/
  | wrote (w : Write n) : Obs n
  /-- A start event is applied. -/
  | applied (d : Drained) : Obs n
  /-- The lookup of a process finds an entry, and its merged values. -/
  | found (record : ProcInfo) (entry : ℕ) (new : ProcStats) : Obs n
  /-- The lookup of a process finds nothing. -/
  | lost (record : ProcInfo) : Obs n
  | reset : Obs n
  deriving DecidableEq, Repr

/-- What happens in a step of the system. -/
def System.obs (s : System n) : SystemStep n → Option (Obs n)
  | .kernel l => (s.kernel.writes l).map .wrote
  | .apply => s.queue.head?.map .applied
  | .visit => s.sweep.procs[s.sweep.idx]?.map fun procInfo =>
    match s.kernel.stats.lookup procInfo.pid with
    | some entry => .found procInfo entry.id (mergeProcStats (List.ofFn entry.values))
    | none => .lost procInfo
  | .reset => some .reset
  | .tick | .drain _ | .drained | .collect | .finish => none

/-- A record without its counters. -/
def ProcInfo.cleared (i : ProcInfo) : ProcInfo := { i with tcpCum := default, udpCum := default }

namespace Obs

/-- The write that is observed. -/
def write? : Obs n → Option (Write n)
  | wrote w => some w
  | applied _ | found .. | lost _ | reset => none

/-- What an observation makes of the record of a process. -/
def track (pid : UInt32) (r : Option ProcInfo) : Obs n → Option ProcInfo
  | wrote _ => r
  | applied d => if d.event.pid = pid then some d.event.info else r
  | found i _ new => if i.pid = pid then r.map fun i => i.sampled new else r
  | lost i => if i.pid = pid then none else r
  | reset => r.map ProcInfo.cleared

/-- What an observation makes of the processes that have died. -/
def bury (dead : List ProcInfo) : Obs n → List ProcInfo
  | lost i => dead ++ [i]
  | reset => []
  | wrote _ | applied _ | found .. => dead

end Obs

/-- The writes of a history. -/
def writesOf (hist : List (Obs n)) : List (Write n) := hist.filterMap Obs.write?

/-- The record of a process after a history, if it is tracked. -/
def recordOf (pid : UInt32) (hist : List (Obs n)) : Option ProcInfo :=
  hist.foldl (Obs.track pid) none

/-- The processes that have died in a history, since the last reset. -/
def deaths (hist : List (Obs n)) : List ProcInfo := hist.foldl Obs.bury []

@[simp] theorem writesOf_append (hist hist' : List (Obs n)) :
    writesOf (hist ++ hist') = writesOf hist ++ writesOf hist' := List.filterMap_append

theorem writesOf_concat {o : Obs n} (ho : o.write? = none) (hist : List (Obs n)) :
    writesOf (hist ++ [o]) = writesOf hist := by
  rw [writesOf_append, writesOf, writesOf, List.filterMap_cons_none ho, List.filterMap_nil,
    List.append_nil]

theorem recordOf_append (pid : UInt32) (hist hist' : List (Obs n)) :
    recordOf pid (hist ++ hist') = hist'.foldl (Obs.track pid) (recordOf pid hist) :=
  List.foldl_append

theorem deaths_append (hist hist' : List (Obs n)) :
    deaths (hist ++ hist') = hist'.foldl Obs.bury (deaths hist) :=
  List.foldl_append

@[simp] theorem recordOf_concat (pid : UInt32) (hist : List (Obs n)) (o : Obs n) :
    recordOf pid (hist ++ [o]) = o.track pid (recordOf pid hist) :=
  recordOf_append pid hist [o]

@[simp] theorem deaths_concat (hist : List (Obs n)) (o : Obs n) :
    deaths (hist ++ [o]) = o.bury (deaths hist) :=
  deaths_append hist [o]

/-- Without a reset, the dead accumulate. -/
theorem foldl_bury {hist : List (Obs n)} (h : .reset ∉ hist) (dead : List ProcInfo) :
    hist.foldl Obs.bury dead = dead ++ deaths hist := by
  induction hist using List.reverseRecOn with
  | nil => simp [deaths]
  | append_singleton hist o ih =>
    rw [deaths_concat, List.foldl_append, ih fun hr => h (List.mem_append_left _ hr)]
    cases o with
    | reset => simp at h
    | lost i => simp [Obs.bury]
    | wrote w => rfl
    | applied d => rfl
    | found i id new => rfl

/-! ### The state as a function of the history -/

namespace System

variable {e : Endian} {s s' : System n}

/-- What a history says about the state it leads to. -/
structure Follows (s : System n) (hist : List (Obs n)) : Prop where
  ledger : s.kernel.Ledger (writesOf hist)
  distinct : s.stats.Distinct
  record : ∀ pid i, (i ∈ s.sweep.procs ∧ i.pid = pid) ↔ recordOf pid hist = some i
  dead : s.sweep.deadProcs = (deaths hist).rtake DEAD_PROC_LIMIT

theorem follows_boot : (boot : System n).Follows [] := by
  constructor
  · exact Kernel.ledger_boot
  · exact StatsCollector.distinct_new
  · intro pid i
    simp [boot, Sweep.start, StatsCollector.new, recordOf]
  · rfl

/-- The records of a collector with distinct pids, one by one. -/
theorem Follows.record_of_mem {hist : List (Obs n)} (hs : s.Follows hist) {i : ProcInfo}
    (hi : i ∈ s.sweep.procs) : recordOf i.pid hist = some i :=
  (hs.record i.pid i).mp ⟨hi, rfl⟩

/-- The ring buffer is not part of the ledger. -/
theorem Ledger.withEvents {k : Kernel n} {ws : List (Write n)} (hk : k.Ledger ws)
    (events : List StartRecord) : Kernel.Ledger { k with events := events } ws :=
  ⟨hk.lt_nextId, hk.inj, hk.fresh, hk.value⟩

/-- **What can be observed of a step.** -/
theorem obs_cases {l : SystemStep n} {o : Obs n} (h : s.obs l = some o) :
    (∃ l' w, l = .kernel l' ∧ w ∈ s.kernel.writes l' ∧ o = .wrote w) ∨
    (∃ d, l = .apply ∧ s.queue.head? = some d ∧ o = .applied d) ∨
    (∃ i entry, l = .visit ∧ s.kernel.stats.lookup i.pid = some entry ∧
      o = .found i entry.id (mergeProcStats (List.ofFn entry.values))) ∨
    (∃ i, l = .visit ∧ s.kernel.stats.lookup i.pid = none ∧ o = .lost i) ∨
    (l = .reset ∧ o = .reset) := by
  cases l with
  | kernel l =>
    obtain ⟨w, hw, rfl⟩ := Option.map_eq_some_iff.mp h
    exact Or.inl ⟨l, w, rfl, hw, rfl⟩
  | apply =>
    obtain ⟨d, hd, rfl⟩ := Option.map_eq_some_iff.mp h
    exact Or.inr (Or.inl ⟨d, rfl, hd, rfl⟩)
  | visit =>
    obtain ⟨i, -, hi⟩ := Option.map_eq_some_iff.mp h
    cases hlookup : s.kernel.stats.lookup i.pid with
    | some entry =>
      rw [hlookup] at hi
      exact Or.inr (Or.inr (Or.inl ⟨i, entry, rfl, hlookup, hi.symm⟩))
    | none =>
      rw [hlookup] at hi
      exact Or.inr (Or.inr (Or.inr (Or.inl ⟨i, rfl, hlookup, hi.symm⟩)))
  | reset => exact Or.inr (Or.inr (Or.inr (Or.inr ⟨rfl, (Option.some.inj h).symm⟩)))
  | tick => cases h
  | drain name => cases h
  | drained => cases h
  | collect => cases h
  | finish => cases h

/-- What a visit observes, and what it does. -/
theorem obs_visit {done todo : List ProcInfo} {i : ProcInfo}
    (hprocs : s.sweep.procs = done ++ i :: todo) (hidx : s.sweep.idx = done.length) :
    (∃ entry, s.kernel.stats.lookup i.pid = some entry ∧
      s.obs .visit = some (.found i entry.id (mergeProcStats (List.ofFn entry.values))) ∧
      s.sweep.visit i (merged s.kernel i.pid) =
        { s.sweep with
          procs := done ++ i.sampled (mergeProcStats (List.ofFn entry.values)) :: todo
          out := s.sweep.out ++ [i.row (mergeProcStats (List.ofFn entry.values))]
          idx := s.sweep.idx + 1 }) ∨
    (s.kernel.stats.lookup i.pid = none ∧ s.obs .visit = some (.lost i) ∧
      s.sweep.visit i (merged s.kernel i.pid) =
        { s.sweep with
          procs := done ++ moveLast todo
          deadProcs := pushRecent DEAD_PROC_LIMIT s.sweep.deadProcs i }) := by
  have hget : s.sweep.procs[s.sweep.idx]? = some i := by simp [hprocs, hidx]
  cases hlookup : s.kernel.stats.lookup i.pid with
  | some entry =>
    refine Or.inl ⟨entry, rfl, by simp only [obs, hget, Option.map_some, hlookup], ?_⟩
    rw [merged, hlookup, Option.map_some, Sweep.visit_some hprocs hidx]
  | none =>
    refine Or.inr ⟨rfl, by simp only [obs, hget, Option.map_some, hlookup], ?_⟩
    rw [merged, hlookup, Option.map_none, Sweep.visit_none hprocs hidx]

/-- What a write adds to the history. -/
theorem follows_kernel {hist : List (Obs n)} (hs : s.Follows hist) {l : KernelStep n}
    {k : Kernel n} (h : s.kernel.step l = some k) :
    Follows { s with kernel := k } (hist ++ (s.obs (.kernel l)).toList) := by
  have hledger := hs.ledger.step h
  rw [obs]
  cases hw : s.kernel.writes l with
  | none =>
    rw [hw, Option.toList_none, List.append_nil] at hledger
    rw [Option.map_none, Option.toList_none, List.append_nil]
    exact ⟨hledger, hs.distinct, hs.record, hs.dead⟩
  | some w =>
    rw [hw, Option.toList_some] at hledger
    rw [Option.map_some, Option.toList_some]
    refine ⟨?_, hs.distinct, fun pid i => ?_, ?_⟩
    · rw [writesOf_append]
      exact hledger
    · rw [recordOf_concat]
      exact hs.record pid i
    · rw [deaths_concat]
      exact hs.dead

theorem follows_reset {hist : List (Obs n)} (hs : s.Follows hist) :
    (s.withStats s.stats.reset).Follows (hist ++ [.reset]) := by
  refine ⟨?_, StatsCollector.distinct_reset hs.distinct, fun pid i => ?_, ?_⟩
  · rw [writesOf_concat rfl]
    exact hs.ledger
  · rw [recordOf_concat, Obs.track, Option.map_eq_some_iff]
    simp only [← hs.record]
    constructor
    · rintro ⟨hi, rfl⟩
      obtain ⟨j, hj, rfl⟩ := List.mem_map.mp hi
      exact ⟨j, ⟨hj, rfl⟩, rfl⟩
    · rintro ⟨j, ⟨hj, rfl⟩, rfl⟩
      exact ⟨List.mem_map_of_mem hj, rfl⟩
  · rw [deaths_concat]
    rfl

theorem follows_apply {hist : List (Obs n)} (hs : s.Follows hist) (d : Drained)
    (queue : List Drained) :
    Follows { s.withStats (s.stats.applyEvent d.event) with queue := queue }
      (hist ++ [.applied d]) := by
  refine ⟨?_, StatsCollector.distinct_applyEvent hs.distinct d.event, fun pid i => ?_, ?_⟩
  · rw [writesOf_concat rfl]
    exact hs.ledger
  · have hmem : i ∈ (s.stats.applyEvent d.event).procs ↔
        (i ∈ s.sweep.procs ∧ i.pid ≠ d.event.pid) ∨ i = d.event.info :=
      StatsCollector.mem_procs_applyEvent hs.distinct
    show i ∈ (s.stats.applyEvent d.event).procs ∧ i.pid = pid ↔ _
    rw [recordOf_concat, Obs.track, hmem]
    split_ifs with hpid
    · rw [Option.some_inj, eq_comm (a := d.event.info)]
      constructor
      · rintro ⟨⟨-, hne⟩ | rfl, hi⟩
        · exact absurd (hi.trans hpid.symm) hne
        · rfl
      · rintro rfl
        exact ⟨Or.inr rfl, hpid⟩
    · rw [← hs.record]
      constructor
      · rintro ⟨⟨hi, -⟩ | rfl, rfl⟩
        · exact ⟨hi, rfl⟩
        · exact absurd rfl hpid
      · rintro ⟨hi, rfl⟩
        exact ⟨Or.inl ⟨hi, Ne.symm hpid⟩, rfl⟩
  · rw [deaths_concat]
    exact (StatsCollector.deadProcs_applyEvent s.stats d.event).trans hs.dead

theorem follows_visit {hist : List (Obs n)} (hs : s.Follows hist) {done todo : List ProcInfo}
    {i : ProcInfo} (hprocs : s.sweep.procs = done ++ i :: todo)
    (hidx : s.sweep.idx = done.length) :
    Follows { s with sweep := s.sweep.visit i (merged s.kernel i.pid) }
      (hist ++ (s.obs .visit).toList) := by
  have hnodup : (i.pid :: (done ++ todo).map ProcInfo.pid).Nodup := by
    have hperm : (s.sweep.procs.map ProcInfo.pid).Perm
        (i.pid :: (done ++ todo).map ProcInfo.pid) := by
      simp [hprocs]
    exact hperm.nodup_iff.mp hs.distinct
  have hother : ∀ j ∈ done ++ todo, j.pid ≠ i.pid := fun j hj hpid =>
    (List.nodup_cons.mp hnodup).1 (List.mem_map.mpr ⟨j, hj, hpid⟩)
  have hi : recordOf i.pid hist = some i := hs.record_of_mem (by simp [hprocs])
  rcases obs_visit hprocs hidx with ⟨entry, hlookup, hobs, hvisit⟩ | ⟨hlookup, hobs, hvisit⟩ <;>
    rw [hobs, hvisit, Option.toList_some]
  · -- The process is found, and its record is renewed.
    generalize mergeProcStats (List.ofFn entry.values) = new
    refine ⟨?_, ?_, fun pid j => ?_, ?_⟩
    · rw [writesOf_concat rfl]
      exact hs.ledger
    · have hpids : (done ++ i.sampled new :: todo).map ProcInfo.pid =
          s.sweep.procs.map ProcInfo.pid := by simp [hprocs, ProcInfo.sampled]
      exact (congrArg List.Nodup hpids).mpr hs.distinct
    · show j ∈ done ++ i.sampled new :: todo ∧ j.pid = pid ↔ _
      rw [recordOf_concat, Obs.track]
      split_ifs with hpid
      · subst hpid
        rw [hi, Option.map_some, Option.some_inj, eq_comm (a := i.sampled new)]
        constructor
        · rintro ⟨hj, hpid⟩
          rcases List.mem_append.mp hj with hj | hj
          · exact absurd hpid (hother j (List.mem_append_left _ hj))
          · rcases List.mem_cons.mp hj with rfl | hj
            · rfl
            · exact absurd hpid (hother j (List.mem_append_right _ hj))
        · rintro rfl
          exact ⟨List.mem_append_right _ (List.mem_cons_self ..), rfl⟩
      · rw [← hs.record, hprocs]
        refine and_congr_left fun hj => ?_
        have hne : j ≠ i.sampled new := fun heq => hpid (hj ▸ heq ▸ rfl)
        have hne' : j ≠ i := fun heq => hpid (hj ▸ heq ▸ rfl)
        simp [hne, hne']
    · rw [deaths_concat]
      exact hs.dead
  · -- The process is lost, and its record goes to the dead list.
    refine ⟨?_, ?_, fun pid j => ?_, ?_⟩
    · rw [writesOf_concat rfl]
      exact hs.ledger
    · have hperm : ((done ++ moveLast todo).map ProcInfo.pid).Perm
          ((done ++ todo).map ProcInfo.pid) := ((moveLast_perm todo).append_left done).map _
      exact hperm.nodup_iff.mpr (List.nodup_cons.mp hnodup).2
    · show j ∈ done ++ moveLast todo ∧ j.pid = pid ↔ _
      have hmem : j ∈ done ++ moveLast todo ↔ j ∈ done ++ todo :=
        ((moveLast_perm todo).append_left done).mem_iff
      rw [recordOf_concat, Obs.track, hmem]
      split_ifs with hpid
      · subst hpid
        exact iff_of_false (fun hj => hother j hj.1 hj.2) nofun
      · rw [← hs.record, hprocs]
        refine and_congr_left fun hj => ?_
        have hne : j ≠ i := fun heq => hpid (hj ▸ heq ▸ rfl)
        simp [hne]
    · have hlen : ((deaths hist).rtake DEAD_PROC_LIMIT).length ≤ DEAD_PROC_LIMIT :=
        length_rtake_le _ _
      show pushRecent DEAD_PROC_LIMIT s.sweep.deadProcs i = _
      rw [deaths_concat, hs.dead, pushRecent_eq_rtake hlen, rtake_rtake_append]
      rfl

/-- **The step lemma**: the state goes on following the history. -/
theorem follows_step {hist : List (Obs n)} (hs : s.Follows hist) {l : SystemStep n}
    (h : s.step e l = some s') : s'.Follows (hist ++ (s.obs l).toList) := by
  rcases step_cases h with ⟨l', k, rfl, hstep, rfl⟩ | ⟨rfl, -, rfl⟩ | ⟨rfl, -, rfl⟩ |
    ⟨name, r, events, rfl, -, hevents, -, rfl⟩ | ⟨rfl, -, rfl⟩ | ⟨d, queue, rfl, -, hqueue, rfl⟩ |
    ⟨rfl, -, -, rfl⟩ | ⟨done, i, todo, rfl, -, hprocs, hidx, rfl⟩ | ⟨rfl, -, rfl⟩
  · exact follows_kernel hs hstep
  · exact follows_reset hs
  · rw [obs, Option.toList_none, List.append_nil]
    exact ⟨hs.ledger, hs.distinct, hs.record, hs.dead⟩
  · rw [obs, Option.toList_none, List.append_nil]
    exact ⟨Ledger.withEvents hs.ledger events, hs.distinct, hs.record, hs.dead⟩
  · rw [obs, Option.toList_none, List.append_nil]
    exact ⟨hs.ledger, hs.distinct, hs.record, hs.dead⟩
  · rw [obs, hqueue]
    exact follows_apply hs d queue
  · rw [obs, Option.toList_none, List.append_nil]
    exact ⟨hs.ledger, hs.distinct, hs.record, hs.dead⟩
  · exact follows_visit hs hprocs hidx
  · rw [obs, Option.toList_none, List.append_nil]
    exact ⟨hs.ledger, hs.distinct, hs.record, hs.dead⟩

/-- The history of a run from the start of the daemon. -/
abbrev history (e : Endian) (ls : List (SystemStep n)) : List (Obs n) :=
  observe (step e) obs boot ls

/-- **The state of a run follows its history.** -/
theorem follows_exec {ls : List (SystemStep n)} (h : exec (step e) boot ls = some s) :
    s.Follows (history e ls) :=
  exec_observe (C := fun _ _ => True) (R := Follows)
    (fun _ _ _ _ _ hs hstep => follows_step hs hstep)
    (meets_of_forall (fun _ _ => trivial) _ _) follows_boot h

end System

end Procnet
