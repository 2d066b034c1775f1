import Procnet.Bpf.Balance
import Procnet.System.Entries

/-!
# What is reported of a process

The bytes that the daemon reports of a process have come a long way: a call adds them to an entry
on some CPU, a lookup merges the values of the entry, and the record of the process goes to a row,
or to the dead list, while entries are deleted and inserted again, pids are reused, start events
come late or not at all, and clients reset the counters. None of this makes a byte appear that was
not there: what is reported of a process, what has been dropped for it and what is under way never
exceed what the calls for it were passed (`never_over_reported`).
-/

namespace Procnet

open Lib

variable {n : ℕ} {e : Endian}

/-- The step of the kernel that a step of the system is. -/
def SystemStep.kernel? : SystemStep n → Option (KernelStep n)
  | .kernel l => some l
  | .reset | .tick | .drain _ | .drained | .apply | .collect | .visit | .finish => none

/-- The steps of the kernel in a run. -/
def kernelSteps (ls : List (SystemStep n)) : List (KernelStep n) := ls.filterMap SystemStep.kernel?

namespace System

/-- The call that returns in a step without having added its bytes. -/
def drops (s : System n) (l : SystemStep n) : Option (Drop n) := l.kernel?.bind s.kernel.drops

variable {s s' : System n} {ws : List (Write n)} {p : Protocol} {d : Dir}

/-- **What is known of a process is a part of what was written for it.** -/
structure Reported (s : System n) (ws : List (Write n)) : Prop where
  record : ∀ i ∈ s.sweep.procs ++ s.sweep.deadProcs, ∀ p d,
    ((i.cum p).dir d).toNat ≤ writtenFor ws i.pid p d
  row : ∀ r ∈ s.sweep.out, ∀ p d,
    (r.cum p d).toNat ≤ writtenFor ws r.pid p d ∧ r.delta p d ≤ r.cum p d

theorem reported_boot : (boot : System n).Reported [] where
  record := by simp [boot, Sweep.start, StatsCollector.new]
  row := by simp [boot, Sweep.start]

/-- More is written later. -/
theorem Reported.append (h : s.Reported ws) (ws' : List (Write n)) : s.Reported (ws ++ ws') := by
  have hle : ∀ pid p d, writtenFor ws pid p d ≤ writtenFor (ws ++ ws') pid p d := by
    intro pid p d
    rw [writtenFor_append]
    exact Nat.le_add_right _ _
  exact ⟨fun i hi p d => (h.record i hi p d).trans (hle i.pid p d), fun r hr p d =>
    ⟨(h.row r hr p d).1.trans (hle r.pid p d), (h.row r hr p d).2⟩⟩

/-- A record without counters reports nothing. -/
theorem toNat_default_dir (d : Dir) : ((default : StatsBytes).dir d).toNat = 0 := by
  cases d <;> rfl

theorem reported_reset (h : s.Reported ws) : (s.withStats s.stats.reset).Reported ws where
  record i hi p d := by
    rw [withStats, StatsCollector.reset, List.append_nil] at hi
    obtain ⟨j, -, rfl⟩ := List.mem_map.mp hi
    cases p <;> exact (toNat_default_dir d).trans_le (Nat.zero_le _)
  row := h.row

theorem reported_apply (h : s.Reported ws) (hs : s.stats.Distinct) (ev : ProcStartEvent)
    (queue : List Drained) :
    Reported { s.withStats (s.stats.applyEvent ev) with queue := queue } ws where
  record i hi p d := by
    have hi : i ∈ (s.stats.applyEvent ev).procs ++ (s.stats.applyEvent ev).deadProcs := hi
    rw [StatsCollector.deadProcs_applyEvent] at hi
    rcases List.mem_append.mp hi with hi | hi
    · rcases (StatsCollector.mem_procs_applyEvent hs).mp hi with ⟨hi, -⟩ | rfl
      · exact h.record i (List.mem_append_left _ hi) p d
      · cases p <;> exact (toNat_default_dir d).trans_le (Nat.zero_le _)
    · exact h.record i (List.mem_append_right _ hi) p d
  row := h.row

/-- A lookup sets the counters of a record to what it found. -/
theorem cum_sampled (i : ProcInfo) (new : ProcStats) (p : Protocol) (d : Dir) :
    ((i.sampled new).cum p).dir d = new.counter p d := by
  cases p <;> rfl

/-- A row shows what the lookup found in total, and no more for the tick. -/
theorem cum_row (i : ProcInfo) (new : ProcStats) (p : Protocol) (d : Dir) :
    (i.row new).cum p d = new.counter p d ∧ (i.row new).delta p d ≤ (i.row new).cum p d := by
  constructor
  · cases p <;> rfl
  · rw [UInt64.le_iff_toNat_le]
    cases p <;> cases d <;>
      simp [StatsRow.delta, StatsRow.cum, ProcInfo.row, StatsBytes.saturatingSub, StatsBytes.dir]

theorem reported_visit (h : s.Reported ws) (hk : s.kernel.Ledger ws) (ho : s.kernel.Owned ws)
    {done todo : List ProcInfo} {i : ProcInfo} (hprocs : s.sweep.procs = done ++ i :: todo)
    (hidx : s.sweep.idx = done.length) :
    Reported { s with sweep := s.sweep.visit i (merged s.kernel i.pid) } ws := by
  have hold : ∀ j ∈ done ++ i :: todo ++ s.sweep.deadProcs, ∀ p d,
      ((j.cum p).dir d).toNat ≤ writtenFor ws j.pid p d := hprocs ▸ h.record
  rcases obs_visit hprocs hidx with ⟨entry, hlookup, -, hvisit⟩ | ⟨-, -, hvisit⟩ <;> rw [hvisit]
  · -- What is found is what the entry holds.
    have hnew : ∀ p d, ((mergeProcStats (List.ofFn entry.values)).counter p d).toNat ≤
        writtenFor ws i.pid p d := Kernel.counter_merged_le hk ho hlookup
    generalize mergeProcStats (List.ofFn entry.values) = new at hnew
    constructor
    · intro j hj p d
      have hj : j ∈ done ++ i.sampled new :: todo ++ s.sweep.deadProcs := hj
      by_cases heq : j = i.sampled new
      · rw [heq, cum_sampled]
        exact hnew p d
      · refine hold j ?_ p d
        simp only [List.mem_append, List.mem_cons, heq, false_or] at hj ⊢
        exact hj.imp_left (Or.imp_right Or.inr)
    · intro r hr p d
      rcases List.mem_append.mp hr with hr | hr
      · exact h.row r hr p d
      · obtain rfl := List.mem_singleton.mp hr
        refine ⟨?_, (cum_row i new p d).2⟩
        rw [(cum_row i new p d).1]
        exact hnew p d
  · -- A record that goes to the dead list is reported as it was.
    refine ⟨fun j hj p d => hold j ?_ p d, h.row⟩
    have hmem : j ∈ done ++ moveLast todo ∨ j ∈ pushRecent DEAD_PROC_LIMIT s.sweep.deadProcs i :=
      List.mem_append.mp hj
    rcases hmem with hmem | hmem
    · have hmem := ((moveLast_perm todo).append_left done).mem_iff.mp hmem
      refine List.mem_append_left _ ?_
      simp only [List.mem_append, List.mem_cons] at hmem ⊢
      exact hmem.imp_right Or.inr
    · rcases List.mem_append.mp (mem_of_mem_pushRecent hmem) with hmem | hmem
      · exact List.mem_append_right _ hmem
      · obtain rfl := List.mem_singleton.mp hmem
        simp

/-- **The step lemma.** -/
theorem reported_step {hist : List (Obs n)} {l : SystemStep n} (hs : s.Follows hist)
    (ho : s.kernel.Owned (writesOf hist)) (h : s.Reported (writesOf hist))
    (hstep : s.step e l = some s') : s'.Reported (writesOf (hist ++ (s.obs l).toList)) := by
  rw [writesOf_append]
  refine Reported.append ?_ _
  rcases step_cases hstep with ⟨l', k, rfl, -, rfl⟩ | ⟨rfl, -, rfl⟩ | ⟨rfl, -, rfl⟩ |
    ⟨name, r, events, rfl, -, hevents, -, rfl⟩ | ⟨rfl, -, rfl⟩ | ⟨dr, queue, rfl, -, hqueue, rfl⟩ |
    ⟨rfl, -, -, rfl⟩ | ⟨done, i, todo, rfl, -, hprocs, hidx, rfl⟩ | ⟨rfl, -, rfl⟩
  · exact ⟨h.record, h.row⟩
  · exact reported_reset h
  · exact ⟨h.record, h.row⟩
  · exact ⟨h.record, h.row⟩
  · exact ⟨h.record, h.row⟩
  · exact reported_apply h hs.distinct dr.event queue
  · exact ⟨h.record, by simp [Sweep.start]⟩
  · exact reported_visit h hs.ledger ho hprocs hidx
  · exact ⟨h.record, h.row⟩

/-- What is observed of a step is what the kernel writes in it. -/
theorem writesOf_obs (s : System n) (l : SystemStep n) :
    writesOf (s.obs l).toList = (l.kernel?.bind s.kernel.writes).toList := by
  cases hobs : s.obs l with
  | none =>
    cases l with
    | kernel l =>
      have hnone : s.kernel.writes l = none := Option.map_eq_none_iff.mp hobs
      rw [SystemStep.kernel?, Option.bind_some, hnone]
      rfl
    | reset | tick | drain | drained | apply | collect | visit | finish => rfl
  | some o =>
    rcases obs_cases hobs with ⟨l', w, rfl, hw, rfl⟩ | ⟨dr, rfl, -, rfl⟩ | ⟨i, entry, rfl, -, rfl⟩ |
      ⟨i, rfl, -, rfl⟩ | ⟨rfl, rfl⟩
    · rw [SystemStep.kernel?, Option.bind_some, Option.mem_def.mp hw]
      rfl
    · rfl
    · rfl
    · rfl
    · rfl

/-- **The books of a system** are those of its kernel. -/
theorem books_step {ls : List (SystemStep n)} {ds : List (Drop n)} {hist : List (Obs n)}
    {l : SystemStep n} (hb : s.kernel.Books (kernelSteps ls) (writesOf hist) ds)
    (h : s.step e l = some s') :
    s'.kernel.Books (kernelSteps (ls ++ [l])) (writesOf (hist ++ (s.obs l).toList))
      (ds ++ (s.drops l).toList) := by
  rw [writesOf_append, writesOf_obs, drops, kernelSteps, List.filterMap_append]
  rcases kernel_step_cases h with ⟨l', rfl, hk⟩ | ⟨hne, events, hk⟩
  · exact hb.step hk
  · -- Only the ring buffer may have changed, and it is not in the books.
    have hnone : l.kernel? = none := by
      cases l with
      | kernel l => exact absurd rfl (hne l)
      | reset | tick | drain | drained | apply | collect | visit | finish => rfl
    rw [List.filterMap_cons_none hnone, hnone, hk]
    simp only [List.filterMap_nil, Option.bind_none, Option.toList_none, List.append_nil]
    exact ⟨Ledger.withEvents hb.ledger events, hb.owned, hb.balance⟩

/-- **The books of a run**, and what is reported of them. -/
theorem books_exec {ls : List (SystemStep n)} (h : exec (step e) boot ls = some s) :
    s.kernel.Books (kernelSteps ls) (writesOf (history e ls)) (observe (step e) drops boot ls) ∧
      s.Reported (writesOf (history e ls)) := by
  refine exec_concat_rec (R := fun ls s =>
    s.kernel.Books (kernelSteps ls) (writesOf (history e ls)) (observe (step e) drops boot ls) ∧
      s.Reported (writesOf (history e ls))) ⟨Kernel.books_boot, reported_boot⟩
    (fun ls l s s' hs hR hstep => ?_) h
  rw [history, observe_concat hs hstep, observe_concat hs hstep]
  exact ⟨books_step hR.1 hstep, reported_step (follows_exec hs) hR.1.owned hR.2 hstep⟩

end System

/-- **Nothing is reported that was not there**: in every run of any number of threads, CPUs and
iterations of the daemon, whatever exits, is reused, does not fit the map or the ring buffer, or is
reset, and wherever the daemon is in its iteration, what a row, a record or the dead list reports of
a process in a protocol and a direction, what has been dropped for it, and what calls have yet to
add, are no more than what the calls for the process were passed; and no row reports more for a
tick than in total. -/
theorem never_over_reported (e : Endian) {ls : List (SystemStep n)} {s : System n}
    (h : exec (System.step e) .boot ls = some s) (p : Protocol) (d : Dir) :
    (∀ i ∈ s.sweep.procs ++ s.sweep.deadProcs,
      ((i.cum p).dir d).toNat +
        droppedFor (observe (System.step e) System.drops .boot ls) i.pid p d +
        s.kernel.pending i.pid p d ≤ passed (kernelSteps ls) i.pid p d) ∧
    ∀ r ∈ s.sweep.out, r.delta p d ≤ r.cum p d ∧
      (r.cum p d).toNat + droppedFor (observe (System.step e) System.drops .boot ls) r.pid p d +
        s.kernel.pending r.pid p d ≤ passed (kernelSteps ls) r.pid p d := by
  obtain ⟨hb, hr⟩ := System.books_exec h
  constructor
  · intro i hi
    have hrecord := hr.record i hi p d
    have hbalance := hb.balance i.pid p d
    omega
  · intro r hmem
    obtain ⟨hrow, hdelta⟩ := hr.row r hmem p d
    have hbalance := hb.balance r.pid p d
    exact ⟨hdelta, by omega⟩

/-- A process sends 100 bytes and is sampled; it sends 50 more, while its leader exits, and is
found dead. -/
def reportedRun : List (SystemStep 1) :=
  .kernel (.spawn (leader 7)) :: .kernel (.spawn ⟨8, 7⟩) ::
    ((firstCall soleCpu (leader 7) 100).map .kernel ++
      [.tick, .drain "curl", .drained, .apply, .collect, .visit, .finish,
        .kernel (.enter soleCpu ⟨8, 7⟩ default 50 0 .tcp), .kernel (.run soleCpu),
        .kernel (.exit (leader 7)), .kernel (.run soleCpu), .tick, .drained, .collect, .visit])

/-- The dead list reports the first 100 of 150 bytes, and the others have been dropped. -/
theorem never_over_reported_exit :
    ∃ s i, exec (System.step .little) .boot reportedRun = some s ∧ s.sweep.deadProcs = [i] ∧
      i.pid = 7 ∧ ((i.cum .tcp).dir .sent).toNat = 100 ∧ 100 + 50 + s.kernel.pending 7 .tcp .sent ≤
        150 := by
  obtain ⟨s, hs, hp⟩ := exists_exec_of_any (System.step .little) .boot reportedRun
    (fun s => s.sweep.deadProcs.map (fun i => (i.pid, (i.cum .tcp).dir .sent)) = [(7, 100)])
    (by decide +kernel)
  obtain ⟨i, hdead, hi⟩ := List.map_eq_singleton_iff.mp (of_decide_eq_true hp)
  obtain ⟨hpid, hsent⟩ := Prod.mk.inj hi
  have hpassed : passed (kernelSteps reportedRun) 7 .tcp .sent = 150 := by decide +kernel
  have hdropped : droppedFor (observe (System.step .little) System.drops .boot reportedRun) 7 .tcp
      .sent = 50 := by
    decide +kernel
  have hle := (never_over_reported .little hs .tcp .sent).1 i (by simp [hdead])
  rw [hpid, hpassed, hdropped, hsent] at hle
  exact ⟨s, i, hs, hdead, hpid, by rw [hsent]; rfl, hle⟩

end Procnet
