import Procnet.Core.Accounting
import Procnet.System.Model

/-!
# An iteration as one step

The runs of the collector (`Op`) take a tick to be one step over the contents that the stats map
has then. The daemon has no such contents: while it looks its processes up one by one, threads go
on sending, and exiting. What it computes over is put together from contents of different moments,
and may never have been those of the map.

It makes no difference for the collector: a process is looked up once in a tick, so that what the
lookups found, each at its moment, are the values of *some* map (`foundMap`). Every interleaved run
of the daemon and the kernel is a run of the collector over such maps, which sees the same start
events, the same lookups with the same results, and the same rows (`exists_sequential_run`). What
holds of all runs of the collector then holds of the daemon.
-/

namespace Procnet

open Lib

variable {n : ℕ} {e : Endian}

/-! ### What can be seen of a run -/

/-- What can be seen of the collector at work. -/
inductive Seen where
  /-- A start event is applied. -/
  | applied (event : ProcStartEvent) : Seen
  /-- A process is looked up, and what was found. -/
  | looked (pid : UInt32) (found : Option ProcStats) : Seen
  /-- The rows of a tick. -/
  | rows (out : List StatsRow) : Seen
  | reset : Seen
  deriving DecidableEq, Repr

/-- A process with what its lookup in a map finds. -/
def lookupIn (e : Endian) (m : StatsMap) (i : ProcInfo) : Seen :=
  .looked i.pid (mergeValuesForPid e m i.pid)

/-- What is seen of an operation. -/
def Op.seen (e : Endian) (c : StatsCollector) : Op → List Seen
  | .applyEvent event => [.applied event]
  | .collectRows m => (c.order e m).map (lookupIn e m) ++ [.rows (c.collectRows e m []).2]
  | .reset => [.reset]

/-- What is seen of a run of the collector. -/
def seenOver (e : Endian) : StatsCollector → List Op → List Seen
  | _, [] => []
  | c, op :: ops => op.seen e c ++ seenOver e (op.run e c).1 ops

theorem seenOver_concat (c : StatsCollector) (ops : List Op) (op : Op) :
    seenOver e c (ops ++ [op]) = seenOver e c ops ++ op.seen e (after e c ops) := by
  induction ops generalizing c with
  | nil => exact List.append_nil _
  | cons op' ops ih => rw [List.cons_append, seenOver, ih, seenOver, after, List.append_assoc]

theorem after_concat (c : StatsCollector) (ops : List Op) (op : Op) :
    after e c (ops ++ [op]) = (op.run e (after e c ops)).1 :=
  after_append c ops [op]

namespace System

variable {s s' : System n}

/-- What is seen of a step of the system. -/
def seen (s : System n) : SystemStep n → Option Seen
  | .apply => s.queue.head?.map fun d => .applied d.event
  | .visit => s.sweep.procs[s.sweep.idx]?.map fun i => .looked i.pid (merged s.kernel i.pid)
  | .finish => some (.rows s.sweep.out)
  | .reset => some .reset
  | .kernel _ | .tick | .drain _ | .drained | .collect => none

/-! ### The map that the lookups of a tick have seen -/

/-- What the lookups of a tick have found so far, in their order. -/
abbrev Found := List (UInt32 × Option ProcStats)

/-- What is seen of them. -/
def lookupsOf (found : Found) : List Seen := found.map fun f => .looked f.1 f.2

/-- A map where each of these lookups would find the same. -/
def Agrees (e : Endian) (m : StatsMap) (found : Found) : Prop :=
  ∀ pid r, (pid, r) ∈ found → mergeValuesForPid e m pid = r

/-- The map with just what was found. -/
def foundMap (e : Endian) (found : Found) : StatsMap :=
  .ofValues e fun pid => (found.lookup pid).join.map fun s => [s]

/-- Merging a single value changes nothing. -/
theorem mergeStats_default (s : ProtocolStats) : mergeStats default s = s := by
  have hzero : ∀ a, satAdd 0 a = a := fun a => UInt64.toNat_inj.mp (by
    simpa using toNat_le_u64Max a)
  have hbytes : (default : StatsBytes).merge s.bytes = s.bytes :=
    congrArg₂ StatsBytes.mk (hzero _) (hzero _)
  have haddr : (if (default : StatsAddr) = default ∧ s.addr ≠ default then s.addr else default) =
      s.addr := by
    by_cases h : s.addr = default
    · rw [if_neg (by simp [h]), h]
    · rw [if_pos ⟨rfl, h⟩]
  exact congrArg₂ ProtocolStats.mk hbytes haddr

theorem mergeProcStats_singleton (s : ProcStats) : mergeProcStats [s] = s :=
  congrArg₂ ProcStats.mk (mergeStats_default s.tcp) (mergeStats_default s.udp)

/-- **What was found at different moments is in one map**, if no process was looked up twice. -/
theorem agrees_foundMap {found : Found} (h : (found.map Prod.fst).Nodup) :
    Agrees e (foundMap e found) found := by
  intro pid r hmem
  have hlookup : found.lookup pid = some r := by
    induction found with
    | nil => cases hmem
    | cons f found ih =>
      obtain ⟨hnotMem, hnodup⟩ := List.nodup_cons.mp h
      rcases List.mem_cons.mp hmem with rfl | hmem
      · exact List.lookup_cons_self
      · have hne : (pid == f.1) = false := by
          rw [beq_eq_false_iff_ne]
          rintro rfl
          exact hnotMem (List.mem_map.mpr ⟨_, hmem, rfl⟩)
        rw [List.lookup_cons, hne]
        exact ih hnodup hmem
  rw [foundMap, mergeValuesForPid_ofValues, hlookup]
  cases r with
  | none => rfl
  | some s => exact congrArg some (mergeProcStats_singleton s)

theorem Agrees.of_concat {m : StatsMap} {found : Found} {pid : UInt32} {r : Option ProcStats}
    (h : Agrees e m (found ++ [(pid, r)])) : Agrees e m found ∧ mergeValuesForPid e m pid = r :=
  ⟨fun p r' hmem => h p r' (List.mem_append_left _ hmem), h pid r (by simp)⟩

/-! ### The loop under way -/

/-- How far the loop over the processes of a collector is, where some lookups have been made: in a
map that agrees with them, the loop would have come here, and goes on from here. -/
structure Sweeps (e : Endian) (c : StatsCollector) (found : Found) (s : Sweep) : Prop where
  /-- Who was looked up is not looked up again. -/
  nodup : (found.map Prod.fst ++ (s.procs.drop s.idx).map ProcInfo.pid).Nodup
  loop : ∀ m, Agrees e m found → (Sweep.start c).loop e m = s.loop e m
  order : ∀ m, Agrees e m found → (c.order e m).map (lookupIn e m) =
    lookupsOf found ++ (visitOrder (isAlive e m) (s.procs.drop s.idx)).map (lookupIn e m)

theorem sweeps_start {c : StatsCollector} (h : c.Distinct) : Sweeps e c [] (.start c) where
  nodup := h
  loop _ _ := rfl
  order _ _ := rfl

/-- One iteration of the loop, on a map where the lookup finds what it has found. -/
theorem loop_visit {m : StatsMap} {s : Sweep} {done todo : List ProcInfo} {i : ProcInfo}
    (hprocs : s.procs = done ++ i :: todo) (hidx : s.idx = done.length) :
    s.loop e m = (s.visit i (mergeValuesForPid e m i.pid)).loop e m := by
  have hlt : s.idx < s.procs.length := by simp [hprocs, hidx]
  have hget : s.procs[s.idx] = i := by simp [hprocs, hidx]
  conv_lhs => rw [Sweep.loop, dif_pos hlt]
  simp only [hget]

theorem Sweeps.visit {c : StatsCollector} {found : Found} {s : Sweep} {done todo : List ProcInfo}
    {i : ProcInfo} (h : Sweeps e c found s) (hprocs : s.procs = done ++ i :: todo)
    (hidx : s.idx = done.length) (r : Option ProcStats) :
    Sweeps e c (found ++ [(i.pid, r)]) (s.visit i r) := by
  have hdrop : s.procs.drop s.idx = i :: todo := by rw [hprocs, hidx, List.drop_left]
  have hnodup := h.nodup
  rw [hdrop, List.map_cons] at hnodup
  have hseen : lookupsOf (found ++ [(i.pid, r)]) = lookupsOf found ++ [.looked i.pid r] := by
    rw [lookupsOf, List.map_append]
    rfl
  have hloop : ∀ m, Agrees e m (found ++ [(i.pid, r)]) →
      (Sweep.start c).loop e m = (s.visit i r).loop e m := by
    intro m hm
    obtain ⟨hfound, hr⟩ := hm.of_concat
    rw [h.loop m hfound, loop_visit hprocs hidx, hr]
  -- Where the process is gone, the last one takes its place: the others are still to come.
  have hrest : ∃ rest, (s.visit i r).procs.drop (s.visit i r).idx = rest ∧ rest.Perm todo ∧
      ∀ m, mergeValuesForPid e m i.pid = r →
        visitOrder (isAlive e m) (i :: todo) = i :: visitOrder (isAlive e m) rest := by
    cases r with
    | some new =>
      refine ⟨todo, ?_, List.Perm.refl _, ?_⟩
      · rw [Sweep.visit_some hprocs hidx]
        simp [hidx]
      · intro m hm
        exact visitOrder_cons_keep (by rw [isAlive, hm, Option.isSome_some]) todo
    | none =>
      refine ⟨moveLast todo, ?_, moveLast_perm todo, ?_⟩
      · rw [Sweep.visit_none hprocs hidx]
        simp [hidx]
      · intro m hm
        exact visitOrder_cons_drop (by rw [isAlive, hm, Option.isSome_none]) todo
  obtain ⟨rest, hdrop', hperm, horder⟩ := hrest
  refine ⟨?_, hloop, ?_⟩
  · rw [hdrop', List.map_append, List.append_assoc]
    exact ((hperm.map ProcInfo.pid).cons i.pid).append_left (found.map Prod.fst)
      |>.nodup_iff.mpr hnodup
  · intro m hm
    obtain ⟨hfound, hr⟩ := hm.of_concat
    rw [h.order m hfound, hdrop, hdrop', horder m hr, hseen, List.append_assoc, List.map_cons,
      lookupIn, hr]
    rfl

/-- **A loop that has ended has computed a tick** over the map of what its lookups found. -/
theorem Sweeps.collectRows {c : StatsCollector} {found : Found} {s : Sweep}
    (h : Sweeps e c found s) (hidx : s.procs.length ≤ s.idx) :
    c.collectRows e (foundMap e found) [] = (⟨s.procs, s.deadProcs⟩, s.out) ∧
      (Op.collectRows (foundMap e found)).seen e c = lookupsOf found ++ [.rows s.out] := by
  have hdrop : s.procs.drop s.idx = [] := List.drop_eq_nil_of_le hidx
  have hnodup := h.nodup
  rw [hdrop, List.map_nil, List.append_nil] at hnodup
  have hagrees := agrees_foundMap (e := e) hnodup
  have hloop : s.loop e (foundMap e found) = s := by
    rw [Sweep.loop, dif_neg (Nat.not_lt_of_le hidx)]
  have htick : c.collectRows e (foundMap e found) [] = (⟨s.procs, s.deadProcs⟩, s.out) := by
    rw [StatsCollector.collectRows, h.loop _ hagrees, hloop]
  refine ⟨htick, ?_⟩
  rw [Op.seen, h.order _ hagrees, hdrop, visitOrder_nil, List.map_nil, List.append_nil, htick]

/-! ### The runs of the system -/

/-- The collector is where a run of its operations has brought it, or in the middle of a tick
that follows it; and this is all that was seen. -/
inductive Sequential (e : Endian) (s : System n) : List Seen → Prop where
  /-- Between two ticks. -/
  | between (ops : List Op) (hphase : s.phase ≠ .collecting) (hafter : after e .new ops = s.stats) :
    Sequential e s (seenOver e .new ops)
  /-- In the loop of a tick. -/
  | within (ops : List Op) (found : Found) (hphase : s.phase = .collecting)
    (hsweep : Sweeps e (after e .new ops) found s.sweep) :
    Sequential e s (seenOver e .new ops ++ lookupsOf found)

theorem sequential_boot : Sequential e (boot : System n) [] :=
  .between [] (by simp [boot]) rfl

/-- An operation of the collector. -/
theorem Sequential.op {seen : List Seen} (h : Sequential e s seen) (hphase : s.phase ≠ .collecting)
    (op : Op) (hphase' : s'.phase ≠ .collecting) (hstats : s'.stats = (op.run e s.stats).1) :
    Sequential e s' (seen ++ op.seen e s.stats) := by
  cases h with
  | between ops _ hafter =>
    rw [← hafter, ← seenOver_concat]
    exact .between _ hphase' (by rw [after_concat, hafter, hstats])
  | within _ _ hphase'' _ => exact absurd hphase'' hphase

/-- A step that the collector has no part in. -/
theorem Sequential.quiet {seen : List Seen} (h : Sequential e s seen)
    (hphase : s'.phase = .collecting ↔ s.phase = .collecting) (hsweep : s'.sweep = s.sweep) :
    Sequential e s' seen := by
  cases h with
  | between ops hne hafter =>
    exact .between ops (fun h => hne (hphase.mp h)) (by rw [hafter, stats, stats, hsweep])
  | within ops found hcollecting h => exact .within ops found (hphase.mpr hcollecting) (hsweep ▸ h)

/-- **A step of the system is an operation of the collector, or a part of one.** -/
theorem Sequential.step {l : SystemStep n} {hist : List Seen} (h : Sequential e s hist)
    (hs : s.step e l = some s') : Sequential e s' (hist ++ (s.seen l).toList) := by
  rcases step_cases hs with ⟨l', k, rfl, -, rfl⟩ | ⟨rfl, hphase, rfl⟩ | ⟨rfl, hphase, rfl⟩ |
    ⟨name, r, events, rfl, hphase, -, -, rfl⟩ | ⟨rfl, hphase, rfl⟩ |
    ⟨d, queue, rfl, hphase, hqueue, rfl⟩ | ⟨rfl, hphase, -, rfl⟩ |
    ⟨done, i, todo, rfl, hphase, hprocs, hidx, rfl⟩ | ⟨rfl, hphase, rfl⟩
  · rw [seen, Option.toList_none, List.append_nil]
    exact h.quiet Iff.rfl rfl
  · exact h.op (by simp [hphase]) .reset (by simp [hphase]) rfl
  · rw [seen, Option.toList_none, List.append_nil]
    exact h.quiet (by simp [hphase]) rfl
  · rw [seen, Option.toList_none, List.append_nil]
    exact h.quiet (by simp [hphase]) rfl
  · rw [seen, Option.toList_none, List.append_nil]
    exact h.quiet (by simp [hphase]) rfl
  · rw [seen, hqueue]
    exact h.op (by simp [hphase]) (.applyEvent d.event) (by simp [hphase]) rfl
  · rw [seen, Option.toList_none, List.append_nil]
    cases h with
    | between ops _ hafter =>
      have hdistinct := distinct_after (e := e) StatsCollector.distinct_new ops
      have hnew : Sequential e { s with sweep := .start s.stats, phase := .collecting }
          (seenOver e .new ops ++ lookupsOf []) :=
        .within ops [] rfl (hafter ▸ sweeps_start hdistinct)
      rwa [lookupsOf, List.map_nil, List.append_nil] at hnew
    | within _ _ hphase' _ => rw [hphase] at hphase'; cases hphase'
  · cases h with
    | between _ hne _ => exact absurd hphase hne
    | within ops found _ hsweep =>
      have hget : s.sweep.procs[s.sweep.idx]? = some i := by simp [hprocs, hidx]
      have hnew := Sequential.within (s := { s with
        sweep := s.sweep.visit i (merged s.kernel i.pid) }) ops _ hphase
        (hsweep.visit hprocs hidx (merged s.kernel i.pid))
      rw [seen, hget, List.append_assoc]
      rwa [lookupsOf, List.map_append] at hnew
  · cases h with
    | between _ hne _ => exact absurd hphase hne
    | within ops found _ hsweep =>
      have hidx : s.sweep.procs.length ≤ s.sweep.idx :=
        (Option.ite_none_right_eq_some.mp hs).1.2
      obtain ⟨htick, hseen⟩ := hsweep.collectRows hidx
      rw [seen, Option.toList_some, List.append_assoc, ← hseen, ← seenOver_concat]
      refine .between _ (by simp) ?_
      rw [after_concat, Op.run, htick]
      rfl

/-- **The interleaved daemon is a sequential one**: whatever the kernel does while the daemon is at
work, between two iterations of its main loop the daemon is where a run of the collector's
operations leads, each a whole. That run sees just the same: the same start events and resets, in
the same order; at each tick the lookups of the same processes, which find in the map of that tick
what the daemon has found at different moments; and the same rows. -/
theorem exists_sequential_run (e : Endian) {ls : List (SystemStep n)} {s : System n}
    (h : exec (step e) boot ls = some s) (hidle : s.phase = .idle) :
    ∃ ops, after e .new ops = s.stats ∧
      seenOver e .new ops = observe (step e) seen boot ls := by
  have hrun : Sequential e s (observe (step e) seen boot ls) :=
    exec_observe (C := fun _ _ => True) (fun s l s' hist _ hs hstep => hs.step hstep)
      (meets_of_forall (fun _ _ => trivial) _ _) sequential_boot h
  generalize observe (step e) seen boot ls = hist at hrun
  cases hrun with
  | between ops _ hafter => exact ⟨ops, hafter, rfl⟩
  | within _ _ hphase _ => rw [hidle] at hphase; cases hphase

/-- Two processes have sent 100 and 30 bytes. Between their lookups, both send again. -/
def betweenLookups : List (SystemStep 1) :=
  .kernel (.spawn (leader 7)) :: .kernel (.spawn (leader 8)) ::
    ((firstCall soleCpu (leader 7) 100 ++ firstCall soleCpu (leader 8) 30).map .kernel ++
      [.tick, .drain "curl", .drain "dig", .drained, .apply, .apply, .collect, .visit,
        .kernel (.enter soleCpu (leader 7) default 1 0 .tcp), .kernel (.run soleCpu),
        .kernel (.run soleCpu), .kernel (.enter soleCpu (leader 8) default 10 0 .tcp),
        .kernel (.run soleCpu), .kernel (.run soleCpu), .visit, .finish])

/-- The tick reports 100 and 40 bytes, which the map has never held at once: it has gone from 100
and 30 over 101 and 30 to 101 and 40. -/
theorem exists_sequential_run_between :
    ∃ s ops, exec (step .little) boot betweenLookups = some s ∧
      s.sweep.out.map (fun r => (r.pid, r.tcpCum.sent)) = [(7, 100), (8, 40)] ∧
      after .little .new ops = s.stats ∧
      seenOver .little .new ops = observe (step .little) seen boot betweenLookups := by
  obtain ⟨s, hs, hp⟩ := exists_exec_of_any (step .little) boot betweenLookups
    (fun s => s.phase = .idle ∧
      s.sweep.out.map (fun r => (r.pid, r.tcpCum.sent)) = [(7, 100), (8, 40)])
    (by decide +kernel)
  obtain ⟨hidle, hout⟩ := of_decide_eq_true hp
  obtain ⟨ops, hafter, hseen⟩ := exists_sequential_run .little hs hidle
  exact ⟨s, ops, hs, hout, hafter, hseen⟩

end System

end Procnet
