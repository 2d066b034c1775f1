import Procnet.Bpf.Kernel
import Procnet.Core.Collect

/-!
# The kernel and the daemon together

An iteration of the daemon's main loop does not see the kernel at one instant: it
consumes the records of the ring buffer one after the other, applies the start events it
got, and looks its processes up one by one, while threads go on sending, starting and
exiting. A step of the system (`System.step`) is a step of the kernel, or one such piece
of the daemon's iteration. The lock of the shared state is held from the beginning of an
iteration to its end, so that a client can reset the counters only in between.

If the kernel does nothing in the meantime, the pieces make up the functions of
`procnet-core`: `exec_apply` for the events, `exec_visit` for `collectRows`.
-/

namespace Procnet

open Lib

/-- How far the daemon is in its iteration. -/
inductive Phase where
  /-- The lock is free. -/
  | idle : Phase
  /-- The records of the ring buffer are consumed. -/
  | draining : Phase
  /-- The events that were drained are applied. -/
  | applying : Phase
  /-- The loop of `StatsCollector.collectRows` runs. -/
  | collecting : Phase
  deriving DecidableEq, Repr

/-- A start event in the hands of the daemon. -/
structure Drained where
  event : ProcStartEvent
  /-- The entry it announces. -/
  entry : ℕ
  deriving DecidableEq, Repr

/-- The kernel and the daemon. -/
structure System (n : ℕ) where
  kernel : Kernel n
  /-- The collector, with the variables of its loop. -/
  sweep : Sweep
  /-- The events that have been drained and not applied. -/
  queue : List Drained
  phase : Phase

/-- What can happen next. -/
inductive SystemStep (n : ℕ) where
  | kernel (l : KernelStep n) : SystemStep n
  /-- A client resets the counters. -/
  | reset : SystemStep n
  /-- An iteration of the main loop begins. -/
  | tick : SystemStep n
  /-- The oldest record of the ring buffer is consumed; the name found for its process. -/
  | drain (name : String) : SystemStep n
  /-- There is nothing to consume any more. -/
  | drained : SystemStep n
  /-- The oldest drained event is applied. -/
  | apply : SystemStep n
  /-- All are, and the loop of `StatsCollector.collectRows` begins. -/
  | collect : SystemStep n
  /-- An iteration of that loop. -/
  | visit : SystemStep n
  /-- The loop ends, and so does the iteration of the main loop. -/
  | finish : SystemStep n
  deriving DecidableEq

namespace System

variable {n : ℕ}

/-- The system when the daemon starts. -/
def boot : System n := ⟨.boot, .start .new, [], .idle⟩

/-- The collector of the daemon. -/
def stats (s : System n) : StatsCollector := ⟨s.sweep.procs, s.sweep.deadProcs⟩

/-- Replaces the collector. The rows of the last tick stay. -/
def withStats (s : System n) (c : StatsCollector) : System n :=
  { s with sweep := { s.sweep with procs := c.procs, deadProcs := c.deadProcs } }

/-- Whether the next record of the ring buffer can be consumed. -/
def nextRecord (k : Kernel n) : Option StartRecord := k.events.head?.filter StartRecord.submitted

/-- One step of the system. -/
def step (e : Endian) (s : System n) : SystemStep n → Option (System n)
  | .kernel l => (s.kernel.step l).map fun k => { s with kernel := k }
  | .reset => if s.phase = .idle then some (s.withStats s.stats.reset) else none
  | .tick => if s.phase = .idle then some { s with phase := .draining } else none
  | .drain name =>
    if s.phase = .draining then
      (nextRecord s.kernel).map fun r =>
        { s with
          kernel := { s.kernel with events := s.kernel.events.tail }
          queue := s.queue ++ [⟨⟨r.tgid, name⟩, r.entry⟩] }
    else none
  | .drained =>
    if s.phase = .draining ∧ nextRecord s.kernel = none then some { s with phase := .applying }
    else none
  | .apply =>
    if s.phase = .applying then
      s.queue.head?.map fun d =>
        { s.withStats (s.stats.applyEvent d.event) with queue := s.queue.tail }
    else none
  | .collect =>
    if s.phase = .applying ∧ s.queue = [] then
      some { s with sweep := .start s.stats, phase := .collecting }
    else none
  | .visit =>
    if s.phase = .collecting then
      s.sweep.procs[s.sweep.idx]?.map fun procInfo =>
        { s with
          sweep := s.sweep.visit procInfo
            (mergeValuesForPid e (s.kernel.statsMap e) procInfo.pid) }
    else none
  | .finish =>
    if s.phase = .collecting ∧ s.sweep.procs.length ≤ s.sweep.idx then
      some { s with phase := .idle }
    else none

variable {e : Endian} {s s' : System n}

@[simp] theorem stats_withStats (s : System n) (c : StatsCollector) :
    (s.withStats c).stats = c := rfl

@[simp] theorem kernel_withStats (s : System n) (c : StatsCollector) :
    (s.withStats c).kernel = s.kernel := rfl

@[simp] theorem queue_withStats (s : System n) (c : StatsCollector) :
    (s.withStats c).queue = s.queue := rfl

@[simp] theorem phase_withStats (s : System n) (c : StatsCollector) :
    (s.withStats c).phase = s.phase := rfl

/-- What a lookup of the daemon finds: the values of the entry, merged. -/
def merged (k : Kernel n) (pid : UInt32) : Option ProcStats :=
  (k.stats.lookup pid).map fun entry => mergeProcStats (List.ofFn entry.values)

/-- **A lookup merges the values of the entry.** -/
theorem mergeValuesForPid_statsMap (e : Endian) (k : Kernel n) (pid : UInt32) :
    mergeValuesForPid e (k.statsMap e) pid = merged k pid := by
  rw [Kernel.statsMap, mergeValuesForPid_ofValues, Option.map_map]
  rfl

/-! ### What a step can do -/

/-- **What a step of the daemon can do.** -/
theorem step_cases {l : SystemStep n} (h : s.step e l = some s') :
    (∃ l' k, l = .kernel l' ∧ s.kernel.step l' = some k ∧ s' = { s with kernel := k }) ∨
    (l = .reset ∧ s.phase = .idle ∧ s' = s.withStats s.stats.reset) ∨
    (l = .tick ∧ s.phase = .idle ∧ s' = { s with phase := .draining }) ∨
    (∃ name r events, l = .drain name ∧ s.phase = .draining ∧ s.kernel.events = r :: events ∧
      r.submitted = true ∧
      s' = { s with
        kernel := { s.kernel with events := events }
        queue := s.queue ++ [⟨⟨r.tgid, name⟩, r.entry⟩] }) ∨
    (l = .drained ∧ s.phase = .draining ∧ s' = { s with phase := .applying }) ∨
    (∃ d queue, l = .apply ∧ s.phase = .applying ∧ s.queue = d :: queue ∧
      s' = { s.withStats (s.stats.applyEvent d.event) with queue := queue }) ∨
    (l = .collect ∧ s.phase = .applying ∧ s.queue = [] ∧
      s' = { s with sweep := .start s.stats, phase := .collecting }) ∨
    (∃ done i todo, l = .visit ∧ s.phase = .collecting ∧ s.sweep.procs = done ++ i :: todo ∧
      s.sweep.idx = done.length ∧
      s' = { s with sweep := s.sweep.visit i (merged s.kernel i.pid) }) ∨
    (l = .finish ∧ s.phase = .collecting ∧ s' = { s with phase := .idle }) := by
  cases l with
  | kernel l =>
    obtain ⟨k, hk, rfl⟩ := Option.map_eq_some_iff.mp h
    exact Or.inl ⟨l, k, rfl, hk, rfl⟩
  | reset =>
    obtain ⟨hphase, hs⟩ := Option.ite_none_right_eq_some.mp h
    exact Or.inr (Or.inl ⟨rfl, hphase, (Option.some.inj hs).symm⟩)
  | tick =>
    obtain ⟨hphase, hs⟩ := Option.ite_none_right_eq_some.mp h
    exact Or.inr (Or.inr (Or.inl ⟨rfl, hphase, (Option.some.inj hs).symm⟩))
  | drain name =>
    obtain ⟨hphase, hs⟩ := Option.ite_none_right_eq_some.mp h
    obtain ⟨r, hr, rfl⟩ := Option.map_eq_some_iff.mp hs
    obtain ⟨hhead, hsub⟩ := Option.filter_eq_some_iff.mp hr
    obtain ⟨events, hevents⟩ := List.head?_eq_some_iff.mp hhead
    refine Or.inr (Or.inr (Or.inr (Or.inl ⟨name, r, events, rfl, hphase, hevents, hsub, ?_⟩)))
    rw [hevents, List.tail_cons]
  | drained =>
    obtain ⟨⟨hphase, -⟩, hs⟩ := Option.ite_none_right_eq_some.mp h
    exact Or.inr (Or.inr (Or.inr (Or.inr (Or.inl ⟨rfl, hphase, (Option.some.inj hs).symm⟩))))
  | apply =>
    obtain ⟨hphase, hs⟩ := Option.ite_none_right_eq_some.mp h
    obtain ⟨d, hd, rfl⟩ := Option.map_eq_some_iff.mp hs
    obtain ⟨queue, hqueue⟩ := List.head?_eq_some_iff.mp hd
    refine Or.inr (Or.inr (Or.inr (Or.inr (Or.inr (Or.inl
      ⟨d, queue, rfl, hphase, hqueue, ?_⟩)))))
    rw [hqueue, List.tail_cons]
  | collect =>
    obtain ⟨⟨hphase, hqueue⟩, hs⟩ := Option.ite_none_right_eq_some.mp h
    exact Or.inr (Or.inr (Or.inr (Or.inr (Or.inr (Or.inr (Or.inl
      ⟨rfl, hphase, hqueue, (Option.some.inj hs).symm⟩))))))
  | visit =>
    obtain ⟨hphase, hs⟩ := Option.ite_none_right_eq_some.mp h
    obtain ⟨i, hi, rfl⟩ := Option.map_eq_some_iff.mp hs
    obtain ⟨hidx, hget⟩ := List.getElem?_eq_some_iff.mp hi
    refine Or.inr (Or.inr (Or.inr (Or.inr (Or.inr (Or.inr (Or.inr (Or.inl
      ⟨s.sweep.procs.take s.sweep.idx, i, s.sweep.procs.drop (s.sweep.idx + 1), rfl, hphase,
        ?_, ?_, ?_⟩)))))))
    · rw [← hget, List.getElem_cons_drop, List.take_append_drop]
    · rw [List.length_take, Nat.min_eq_left (Nat.le_of_lt hidx)]
    · rw [mergeValuesForPid_statsMap]
  | finish =>
    obtain ⟨⟨hphase, -⟩, hs⟩ := Option.ite_none_right_eq_some.mp h
    exact Or.inr (Or.inr (Or.inr (Or.inr (Or.inr (Or.inr (Or.inr (Or.inr
      ⟨rfl, hphase, (Option.some.inj hs).symm⟩)))))))

/-- **What a visit does**: it looks the process at the index up. -/
theorem visit_cases (h : s.step e .visit = some s') :
    ∃ done i todo, s.sweep.procs = done ++ i :: todo ∧ s.sweep.idx = done.length ∧
      s' = { s with sweep := s.sweep.visit i (merged s.kernel i.pid) } := by
  rcases step_cases h with ⟨_, _, hl, -⟩ | ⟨hl, -⟩ | ⟨hl, -⟩ | ⟨_, _, _, hl, -⟩ | ⟨hl, -⟩ |
    ⟨_, _, hl, -⟩ | ⟨hl, -⟩ | ⟨done, i, todo, -, -, hprocs, hidx, hs⟩ | ⟨hl, -⟩
  case inr.inr.inr.inr.inr.inr.inr.inl => exact ⟨done, i, todo, hprocs, hidx, hs⟩
  all_goals cases hl

/-! ### Uninterrupted pieces -/

/-- **The events are applied in order**, as the daemon's loop over them does. -/
theorem exec_apply (hphase : s.phase = .applying) :
    exec (step e) s (List.replicate s.queue.length .apply) =
      some { s.withStats ((s.queue.map Drained.event).foldl StatsCollector.applyEvent s.stats) with
        queue := [] } := by
  generalize hqueue : s.queue = queue
  induction queue generalizing s with
  | nil =>
    obtain ⟨kernel, sweep, queue, phase⟩ := s
    obtain rfl : queue = [] := hqueue
    rfl
  | cons d queue ih =>
    have hstep : step e s .apply =
        some { s.withStats (s.stats.applyEvent d.event) with queue := queue } := by
      simp only [step, hphase, hqueue, if_pos, List.head?_cons, Option.map_some, List.tail_cons]
    rw [List.length_cons, List.replicate_succ, exec_cons, hstep, Option.bind_some]
    exact ih (s := { s.withStats (s.stats.applyEvent d.event) with queue := queue }) hphase rfl

/-- **The visits make up the loop of `collectRows`** if the kernel does nothing in the
meantime. -/
theorem exec_visit (hphase : s.phase = .collecting) :
    ∃ visits, exec (step e) s (List.replicate visits .visit) =
      some { s with sweep := s.sweep.loop e (s.kernel.statsMap e) } := by
  obtain ⟨kernel, sweep, queue, phase⟩ := s
  obtain rfl : phase = .collecting := hphase
  induction sweep using Sweep.loop.induct e (kernel.statsMap e) with
  | case1 sweep hidx procInfo ih =>
    obtain ⟨visits, hvisits⟩ := ih
    refine ⟨visits + 1, ?_⟩
    have hstep : step e ⟨kernel, sweep, queue, .collecting⟩ .visit =
        some ⟨kernel, sweep.visit procInfo
          (mergeValuesForPid e (kernel.statsMap e) procInfo.pid), queue, .collecting⟩ := by
      simp only [step, if_pos, List.getElem?_eq_getElem hidx, Option.map_some]
      rfl
    have hloop : sweep.loop e (kernel.statsMap e) =
        (sweep.visit procInfo (mergeValuesForPid e (kernel.statsMap e) procInfo.pid)).loop e
          (kernel.statsMap e) := by
      conv_lhs => rw [Sweep.loop, dif_pos hidx]
    rw [List.replicate_succ, exec_cons, hstep, Option.bind_some, hvisits, hloop]
  | case2 sweep hidx =>
    refine ⟨0, ?_⟩
    rw [Sweep.loop, dif_neg hidx]
    rfl

/-- Where the loop ends, it has visited everything. -/
theorem length_le_idx_loop (m : StatsMap) (sweep : Sweep) :
    (sweep.loop e m).procs.length ≤ (sweep.loop e m).idx := by
  induction sweep using Sweep.loop.induct e m with
  | case1 sweep hidx procInfo ih =>
    rw [Sweep.loop, dif_pos hidx]
    exact ih
  | case2 sweep hidx =>
    rw [Sweep.loop, dif_neg hidx]
    exact Nat.le_of_not_lt hidx

/-- **An iteration that the kernel does not interrupt** applies the drained events and
collects the rows, as the daemon's main loop does. -/
theorem exec_iteration (hphase : s.phase = .applying) :
    ∃ ls s', exec (step e) s ls = some s' ∧ s'.phase = .idle ∧ s'.queue = [] ∧
      (s'.stats, s'.sweep.out) =
        (((s.queue.map Drained.event).foldl StatsCollector.applyEvent s.stats).collectRows e
          (s.kernel.statsMap e) s.sweep.out) := by
  let c := (s.queue.map Drained.event).foldl StatsCollector.applyEvent s.stats
  let s₁ : System n := { s with sweep := .start c, queue := [], phase := .collecting }
  have hcollect : step e { s.withStats c with queue := [] } .collect = some s₁ :=
    if_pos ⟨hphase, rfl⟩
  obtain ⟨visits, hvisits⟩ := exec_visit (e := e) (s := s₁) rfl
  let s₂ : System n := { s₁ with sweep := s₁.sweep.loop e (s₁.kernel.statsMap e) }
  have hfinish : step e s₂ .finish = some { s₂ with phase := .idle } :=
    if_pos ⟨rfl, length_le_idx_loop _ _⟩
  refine ⟨List.replicate s.queue.length .apply ++ .collect :: (List.replicate visits .visit ++
    [.finish]), { s₂ with phase := .idle }, ?_, rfl, rfl, rfl⟩
  rw [exec_append, exec_apply hphase, Option.bind_some, exec_cons, hcollect, Option.bind_some,
    exec_append, hvisits, Option.bind_some, exec_cons, hfinish]
  rfl

end System

end Procnet
