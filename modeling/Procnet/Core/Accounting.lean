import Procnet.Core.Collect
import Procnet.Core.Merge
import Procnet.Lib.Meter

/-!
# What the rows of a process add up to

Runs of the collector: start events, ticks and resets in any order. While a
process stays tracked, each of its four counters is a meter in the sense of
`Procnet.Lib.Meter`: the ticks are its readings, `StatsCollector.reset` its reset
(`map_delta_rowsOver`). The results about runs are the laws of a meter, read off
the rows.

* `rows_conserve_traffic` – without resets the per-tick values of a process add
  up to its cumulative value, which is the merged counter of the kernel.
* `reset_counts_afresh_iff` – the kernel counters are never cleared, so the tick
  after a reset reports again all that was counted before it. Counting starts
  afresh exactly when there was nothing to forget.
-/

namespace Procnet

open Lib

variable {e : Endian}

/-! ### Runs of the collector -/

/-- The operations of a collector. -/
inductive Op where
  /-- A process starts to use the network. -/
  | applyEvent (event : ProcStartEvent) : Op
  /-- A tick, over the contents the stats map has then. -/
  | collectRows (statsMap : StatsMap) : Op
  /-- The cumulative counters are reset. -/
  | reset : Op

namespace Op

/-- The collector after an operation, and the rows it produces. -/
def run (e : Endian) (c : StatsCollector) : Op → StatsCollector × List StatsRow
  | .applyEvent event => (c.applyEvent event, [])
  | .collectRows statsMap => c.collectRows e statsMap []
  | .reset => (c.reset, [])

/-- An operation that keeps a process tracked: if it is a tick, it finds it. -/
def Finds (e : Endian) (pid : UInt32) : Op → Prop
  | .collectRows statsMap => (mergeValuesForPid e statsMap pid).isSome
  | .applyEvent _ | .reset => True

/-- An operation that sets the counters of a process to zero. -/
def Clears (pid : UInt32) : Op → Prop
  | .applyEvent event => event.pid = pid
  | .collectRows _ => False
  | .reset => True

end Op

/-- The collector after a run. -/
def after (e : Endian) : StatsCollector → List Op → StatsCollector
  | c, [] => c
  | c, op :: ops => after e (op.run e c).1 ops

/-- The rows of a process over a run, one tick after the other. -/
def rowsOver (e : Endian) (pid : UInt32) : StatsCollector → List Op → List StatsRow
  | _, [] => []
  | c, op :: ops => rowsFor pid (op.run e c).2 ++ rowsOver e pid (op.run e c).1 ops

/-- The contents of the stats map at the ticks of a run. -/
def mapsOf : List Op → List StatsMap
  | [] => []
  | .collectRows statsMap :: ops => statsMap :: mapsOf ops
  | .applyEvent _ :: ops => mapsOf ops
  | .reset :: ops => mapsOf ops

theorem after_append (c : StatsCollector) (ops ops' : List Op) :
    after e c (ops ++ ops') = after e (after e c ops) ops' := by
  induction ops generalizing c with
  | nil => rfl
  | cons op ops ih => exact ih _

theorem mapsOf_append (ops ops' : List Op) : mapsOf (ops ++ ops') = mapsOf ops ++ mapsOf ops' := by
  induction ops with
  | nil => rfl
  | cons op ops ih => cases op <;> simp [mapsOf, ih]

theorem Op.distinct_run {c : StatsCollector} (h : c.Distinct) (op : Op) :
    (op.run e c).1.Distinct := by
  cases op with
  | applyEvent event => exact StatsCollector.distinct_applyEvent h event
  | collectRows statsMap => exact StatsCollector.distinct_collectRows h []
  | reset => exact StatsCollector.distinct_reset h

/-- **The pids of the tracked processes stay distinct** over every run. -/
theorem distinct_after {c : StatsCollector} (h : c.Distinct) (ops : List Op) :
    (after e c ops).Distinct := by
  induction ops generalizing c with
  | nil => exact h
  | cons op ops ih => exact ih (op.distinct_run h)

/-! ### A process as a meter -/

section Meter

variable (e) (pid : UInt32) (p : Protocol) (d : Dir)

/-- The merged counter of a process in the stats map. -/
def mergedCounter (statsMap : StatsMap) : ℕ :=
  (((mergeValuesForPid e statsMap pid).getD default).counter p d).toNat

/-- What a run does to one counter of a process. -/
def beats : List Op → List Meter.Beat
  | [] => []
  | .collectRows statsMap :: ops => .sample (mergedCounter e pid p d statsMap) :: beats ops
  | .applyEvent event :: ops => if event.pid = pid then .reset :: beats ops else beats ops
  | .reset :: ops => .reset :: beats ops

/-- The counter a record was last seen with. -/
def ProcInfo.counter (i : ProcInfo) : ℕ := ((i.cum p).dir d).toNat

variable {e pid p d}

theorem samples_beats (ops : List Op) :
    Meter.samples (beats e pid p d ops) = (mapsOf ops).map (mergedCounter e pid p d) := by
  induction ops with
  | nil => rfl
  | cons op ops ih =>
    cases op with
    | applyEvent event =>
      rw [beats, mapsOf, ← ih]
      split <;> rfl
    | collectRows m => simp [beats, Meter.samples, mapsOf, ih]
    | reset => simp [beats, Meter.samples, mapsOf, ih]

theorem reset_mem_beats {ops : List Op} :
    Meter.Beat.reset ∈ beats e pid p d ops ↔ ∃ op ∈ ops, op.Clears pid := by
  induction ops with
  | nil => simp [beats]
  | cons op ops ih =>
    simp only [List.mem_cons, exists_eq_or_imp, ← ih]
    cases op with
    | applyEvent event =>
      rw [beats, Op.Clears]
      split <;> simp [*]
    | collectRows m => simp [beats, Op.Clears]
    | reset => simp [beats, Op.Clears]

theorem beats_append (ops ops' : List Op) :
    beats e pid p d (ops ++ ops') = beats e pid p d ops ++ beats e pid p d ops' := by
  induction ops with
  | nil => rfl
  | cons op ops ih =>
    cases op with
    | applyEvent event =>
      rw [List.cons_append, beats, beats, ih]
      split <;> rfl
    | collectRows m => simp [beats, ih]
    | reset => simp [beats, ih]

/-- **The step lemma**: an operation that keeps a process tracked leaves a record
with the counter the meter shows after it, and its rows are the readings of the
meter. -/
theorem Op.meter_run {c : StatsCollector} (h : c.Distinct) {i : ProcInfo} (hi : i ∈ c.procs)
    {op : Op} (hop : op.Finds e i.pid) :
    ∃ j ∈ (op.run e c).1.procs, j.pid = i.pid ∧
      ∀ p d, j.counter p d = Meter.reading (i.counter p d) (beats e i.pid p d [op]) ∧
        (rowsFor i.pid (op.run e c).2).map (fun r => (r.delta p d).toNat) =
          Meter.deltas (i.counter p d) (beats e i.pid p d [op]) ∧
        (rowsFor i.pid (op.run e c).2).map (fun r => (r.cum p d).toNat) =
          Meter.samples (beats e i.pid p d [op]) := by
  cases op with
  | applyEvent event =>
    by_cases hpid : event.pid = i.pid
    · have hmem := (StatsCollector.mem_procs_applyEvent h).mpr (Or.inr rfl : _ ∨ event.info = _)
      refine ⟨event.info, hmem, hpid, fun p d => ?_⟩
      rw [beats, if_pos hpid]
      refine ⟨?_, rfl, rfl⟩
      cases p <;> cases d <;> rfl
    · have hmem := (StatsCollector.mem_procs_applyEvent h).mpr (Or.inl ⟨hi, Ne.symm hpid⟩)
      refine ⟨i, hmem, rfl, fun p d => ?_⟩
      rw [beats, if_neg hpid]
      exact ⟨rfl, rfl, rfl⟩
  | reset =>
    refine ⟨_, List.mem_map_of_mem hi, rfl, fun p d => ⟨?_, rfl, rfl⟩⟩
    cases p <;> cases d <;> rfl
  | collectRows statsMap =>
    obtain ⟨s, hs⟩ := Option.isSome_iff_exists.mp hop
    have hmem := (StatsCollector.mem_procs_collectRows []).mpr ⟨i, hi, s, hs, rfl⟩
    have hrows := StatsCollector.rowsFor_collectRows h hi hs []
    refine ⟨i.sampled s, hmem, rfl, fun p d => ?_⟩
    have hcount : mergedCounter e i.pid p d statsMap = (s.counter p d).toNat := by
      simp [mergedCounter, hs]
    simp only [run, hrows, beats, hcount]
    cases p <;> cases d <;>
      simp [Meter.reading, Meter.deltas, Meter.samples, ProcInfo.counter, ProcInfo.cum,
        ProcInfo.sampled, ProcInfo.row, ProcStats.counter, ProcStats.proto, StatsBytes.dir,
        StatsRow.delta, StatsRow.cum, StatsBytes.saturatingSub]

/-- A process that is kept tracked has a record after a run, with the counter the
meter shows then. -/
theorem meter_after {c : StatsCollector} (h : c.Distinct) {i : ProcInfo} (hi : i ∈ c.procs)
    (ops : List Op) (hops : ∀ op ∈ ops, op.Finds e i.pid) :
    ∃ j ∈ (after e c ops).procs, j.pid = i.pid ∧
      ∀ p d, j.counter p d = Meter.reading (i.counter p d) (beats e i.pid p d ops) := by
  induction ops generalizing c i with
  | nil => exact ⟨i, hi, rfl, fun p d => rfl⟩
  | cons op ops ih =>
    obtain ⟨j, hj, hpid, hmeter⟩ := Op.meter_run h hi (hops op (List.mem_cons_self ..))
    obtain ⟨k, hk, hkpid, hread⟩ := ih (op.distinct_run h) hj fun op' hop' =>
      hpid ▸ hops op' (List.mem_cons_of_mem _ hop')
    refine ⟨k, hk, hkpid.trans hpid, fun p d => ?_⟩
    have hbeats : beats e i.pid p d (op :: ops) =
        beats e i.pid p d [op] ++ beats e i.pid p d ops := beats_append [op] ops
    rw [hread, hpid, (hmeter p d).1, hbeats, Meter.reading_append]

/-- **A tracked process is a meter**: over a run that keeps it, its rows report
what a meter reports from its record on. -/
theorem meter_rowsOver {c : StatsCollector} (h : c.Distinct) {i : ProcInfo} (hi : i ∈ c.procs)
    (ops : List Op) (hops : ∀ op ∈ ops, op.Finds e i.pid) (p : Protocol) (d : Dir) :
    (rowsOver e i.pid c ops).map (fun r => (r.delta p d).toNat) =
        Meter.deltas (i.counter p d) (beats e i.pid p d ops) ∧
      (rowsOver e i.pid c ops).map (fun r => (r.cum p d).toNat) =
        (mapsOf ops).map (mergedCounter e i.pid p d) := by
  rw [← samples_beats]
  induction ops generalizing c i with
  | nil => exact ⟨rfl, rfl⟩
  | cons op ops ih =>
    obtain ⟨j, hj, hpid, hmeter⟩ := Op.meter_run h hi (hops op (List.mem_cons_self ..))
    obtain ⟨hread, hdelta, hsample⟩ := hmeter p d
    have hrest := ih (op.distinct_run h) hj fun op' hop' =>
      hpid ▸ hops op' (List.mem_cons_of_mem _ hop')
    rw [hpid] at hrest
    have hbeats : beats e i.pid p d (op :: ops) =
        beats e i.pid p d [op] ++ beats e i.pid p d ops := beats_append [op] ops
    rw [hbeats, Meter.deltas_append, Meter.samples_append, ← hread, rowsOver, List.map_append,
      List.map_append, hdelta, hsample, hrest.1, hrest.2]
    exact ⟨rfl, rfl⟩

end Meter

/-! ### The merged counter -/

section Merge

variable {p : Protocol} {d : Dir}

/-- **The merged counter is the sum over the CPUs**, clamped. -/
theorem mergedCounter_eq_min {m : StatsMap} {pid : UInt32} {values : List (List UInt8)}
    (h : m.lookupPercpu (pidKey e pid) = some values) :
    mergedCounter e pid p d m = min u64Max (exactSum p d (wellFormed e values)) := by
  rw [mergedCounter, mergeValuesForPid, h, Option.map_some, Option.getD_some, foldl_mergeValue,
    toNat_counter_mergeProcStats]

/-- No per-CPU counter of a process decreases from one state of the stats map to
another, all its values being well formed. -/
def CpuGrows (e : Endian) (pid : UInt32) (m m' : StatsMap) : Prop :=
  ∃ values values', m.lookupPercpu (pidKey e pid) = some values ∧
    m'.lookupPercpu (pidKey e pid) = some values' ∧
    List.Forall₂ (fun v v' => ∃ s s', procStatsFromBytes e v = some s ∧
      procStatsFromBytes e v' = some s' ∧ ∀ p d, s.counter p d ≤ s'.counter p d) values values'

/-- Where no CPU counts down, neither does the merged counter. -/
theorem CpuGrows.mergedCounter_le {m m' : StatsMap} {pid : UInt32} (h : CpuGrows e pid m m')
    (p : Protocol) (d : Dir) : mergedCounter e pid p d m ≤ mergedCounter e pid p d m' := by
  obtain ⟨values, values', hm, hm', hgrow⟩ := h
  have hcounters : List.Forall₂ (fun v v' => valueCounter e p d v ≤ valueCounter e p d v')
      values values' := by
    refine hgrow.imp ?_
    rintro v v' ⟨s, s', hv, hv', hle⟩
    simpa [valueCounter, hv, hv'] using hle p d
  have hsum := exactSum_mono hcounters
  rw [mergedCounter_eq_min hm, mergedCounter_eq_min hm']
  exact min_le_min_left _ hsum

end Merge

/-! ### Conservation of reported traffic -/

/-- In a row the meter produces, a per-tick value is at most the cumulative
one. -/
theorem StatsRow.total_le_totalCum {r : StatsRow} (h : ∀ p d, r.delta p d ≤ r.cum p d) (d : Dir) :
    r.total.dir d ≤ r.totalCum.dir d := by
  have htcp := UInt64.le_iff_toNat_le.mp (h .tcp d)
  have hudp := UInt64.le_iff_toNat_le.mp (h .udp d)
  simp only [delta, cum] at htcp hudp
  rw [UInt64.le_iff_toNat_le, total, totalCum, StatsBytes.merge_dir, StatsBytes.merge_dir,
    toNat_satAdd, toNat_satAdd]
  omega

/-- A row never reports more for the tick than in total. -/
theorem delta_le_cum_of_mem_rowsOver {c : StatsCollector} {pid : UInt32} {ops : List Op}
    {r : StatsRow} (hr : r ∈ rowsOver e pid c ops) (p : Protocol) (d : Dir) :
    r.delta p d ≤ r.cum p d := by
  induction ops generalizing c with
  | nil => simp [rowsOver] at hr
  | cons op ops ih =>
    rcases List.mem_append.mp hr with hr | hr
    · cases op with
      | applyEvent event => simp [Op.run, rowsFor] at hr
      | reset => simp [Op.run, rowsFor] at hr
      | collectRows m =>
        obtain ⟨j, -, s, -, rfl⟩ := (StatsCollector.mem_rows_collectRows []).mp
          (List.mem_filter.mp hr).1
        rw [UInt64.le_iff_toNat_le]
        cases p <;> cases d <;>
          simp [StatsRow.delta, StatsRow.cum, ProcInfo.row, StatsBytes.saturatingSub,
            StatsBytes.dir]
    · exact ih hr

/-- **Conservation of reported traffic.** From its last announcement on, while
ticks find it and no reset comes, the rows of a process show the merged counter
of each tick as cumulative value; their per-tick values add up to the last one;
and none of them decreases. -/
theorem rows_conserve_traffic (e : Endian) (earlier : List Op) (event : ProcStartEvent)
    (ops : List Op) (hfinds : ∀ op ∈ ops, op.Finds e event.pid)
    (hclears : ∀ op ∈ ops, ¬ op.Clears event.pid)
    (hgrow : (mapsOf ops).Pairwise (CpuGrows e event.pid)) :
    let rows := rowsOver e event.pid (after e .new (earlier ++ [.applyEvent event])) ops
    (∀ p d,
      rows.map (fun r => (r.cum p d).toNat) = (mapsOf ops).map (mergedCounter e event.pid p d) ∧
      (rows.map fun r => (r.delta p d).toNat).sum =
        (rows.map fun r => (r.cum p d).toNat).getLastD 0 ∧
      rows.Pairwise fun r r' => r.cum p d ≤ r'.cum p d) ∧
    ∀ r ∈ rows, ∀ d, r.total.dir d ≤ r.totalCum.dir d := by
  intro rows
  have hdist : (after e .new earlier).Distinct := distinct_after StatsCollector.distinct_new _
  have hstart : after e .new (earlier ++ [.applyEvent event]) =
      (after e .new earlier).applyEvent event := after_append _ _ _
  have hdist' := StatsCollector.distinct_applyEvent hdist event
  have hmem := (StatsCollector.mem_procs_applyEvent hdist).mpr (Or.inr rfl : _ ∨ event.info = _)
  refine ⟨fun p d => ?_, fun r hr d => r.total_le_totalCum
    (fun p d => delta_le_cum_of_mem_rowsOver hr p d) d⟩
  obtain ⟨hdelta, hcum⟩ := meter_rowsOver hdist' hmem ops hfinds p d
  have hzero : event.info.counter p d = 0 := by cases p <;> cases d <;> rfl
  rw [← hstart, hzero] at hdelta
  rw [← hstart] at hcum
  change rows.map _ = Meter.deltas 0 (beats e event.pid p d ops) at hdelta
  change rows.map _ = (mapsOf ops).map (mergedCounter e event.pid p d) at hcum
  have hrising : Meter.Rising (beats e event.pid p d ops) := by
    rw [Meter.Rising, samples_beats, List.pairwise_map]
    exact hgrow.imp fun h => h.mergedCounter_le p d
  have hnoreset : Meter.Beat.reset ∉ beats e event.pid p d ops := by
    rw [reset_mem_beats]
    rintro ⟨op, hop, hc⟩
    exact hclears op hop hc
  refine ⟨hcum, ?_, ?_⟩
  · -- The books of a meter that only rises balance.
    have hbooks := Meter.sum_deltas 0 hrising fun v _ => Nat.zero_le v
    rw [Meter.cleared_eq_zero_of_no_reset 0 hnoreset, Meter.reading_eq_getLastD 0 hnoreset,
      samples_beats] at hbooks
    rw [hdelta, hcum]
    exact hbooks
  · have hpair : (rows.map fun r => (r.cum p d).toNat).Pairwise (· ≤ ·) := by
      rw [hcum, ← samples_beats]
      exact hrising
    exact (List.pairwise_map.mp hpair).imp fun h => UInt64.le_iff_toNat_le.mpr h

/-- One process with the same TCP bytes sent on its only CPU. -/
def singleCounter (pid : UInt32) (sent : UInt64) : StatsMap :=
  .ofValues .little fun p =>
    if p = pid then some [{ (default : ProcStats) with tcp.bytes.sent := sent }] else none

/-- Two ticks of a process that sends 100 bytes, then 50 more. -/
theorem rows_conserve_traffic_two_ticks :
    let ops : List Op := [.collectRows (singleCounter 7 100), .collectRows (singleCounter 7 150)]
    let rows := rowsOver .little 7 (after .little .new [.applyEvent ⟨7, "curl"⟩]) ops
    (rows.map fun r => (r.delta .tcp .sent).toNat).sum =
        (rows.map fun r => (r.cum .tcp .sent).toNat).getLastD 0 ∧
      (rows.map fun r => (r.cum .tcp .sent).toNat) = [100, 150] := by
  intro ops rows
  obtain ⟨hbooks, -⟩ := rows_conserve_traffic .little [] ⟨7, "curl"⟩ ops
    (by simp [ops, Op.Finds, singleCounter, mergeValuesForPid_ofValues])
    (by simp [ops, Op.Clears])
    (by
      simp only [ops, mapsOf, List.pairwise_pair]
      refine ⟨_, _, StatsMap.lookupPercpu_ofValues _ _ _, StatsMap.lookupPercpu_ofValues _ _ _,
        .cons ⟨_, _, procStatsFromBytes_toBytes _ _, procStatsFromBytes_toBytes _ _, ?_⟩ .nil⟩
      rintro (_ | _) (_ | _) <;> decide)
  obtain ⟨hcum, hsum, -⟩ := hbooks .tcp .sent
  exact ⟨hsum, hcum.trans (by decide +kernel)⟩

/-! ### Counting after a reset -/

section Reset

variable (e) (pid : UInt32) (p : Protocol) (d : Dir)

/-- Whether the rows of a process from a reset on, up to a tick that sees its
counter at `c1`, leave out the `c0` bytes counted before. -/
def CountsAfresh (c0 c1 : ℕ) (rows : List StatsRow) : Prop :=
  (∀ r ∈ rows.getLast?, (r.cum p d).toNat ≤ c1 - c0) ∧
    (rows.map fun r => (r.delta p d).toNat).sum ≤ c1 - c0

/-- Every tick that is followed by an operation which clears the process saw
nothing of it. -/
def ClearsNothing (ops : List Op) : Prop :=
  ∀ l m r, ops = l ++ .collectRows m :: r → (∃ op ∈ r, op.Clears pid) →
    mergedCounter e pid p d m = 0

variable {e pid p d}

theorem clearsNothing_nil : ClearsNothing e pid p d [] := by
  simp [ClearsNothing]

theorem clearsNothing_cons {op : Op} {ops : List Op} :
    ClearsNothing e pid p d (op :: ops) ↔
      (∀ m, op = .collectRows m → (∃ op ∈ ops, op.Clears pid) → mergedCounter e pid p d m = 0) ∧
        ClearsNothing e pid p d ops := by
  constructor
  · refine fun h => ⟨fun m hop hc => h [] m ops (by rw [hop]; rfl) hc, fun l m r hops hc => ?_⟩
    exact h (op :: l) m r (by rw [hops]; rfl) hc
  · rintro ⟨hhead, htail⟩ l m r hops hc
    rcases List.cons_eq_append_iff.mp hops with ⟨rfl, hr⟩ | ⟨l', rfl, hops'⟩
    · obtain ⟨rfl, rfl⟩ := List.cons.inj hr
      exact hhead m rfl hc
    · exact htail l' m r hops' hc

/-- In the terms of a meter, its resets are fresh. -/
theorem freshResets_beats {ops : List Op} :
    Meter.FreshResets (beats e pid p d ops) ↔ ClearsNothing e pid p d ops := by
  induction ops with
  | nil => simp [beats, Meter.FreshResets, clearsNothing_nil]
  | cons op ops ih =>
    rw [clearsNothing_cons, ← ih]
    cases op with
    | applyEvent event =>
      rw [beats]
      split <;> simp [Meter.FreshResets]
    | collectRows m => simp [beats, Meter.FreshResets, reset_mem_beats]
    | reset => simp [beats, Meter.FreshResets]

/-- **When counting starts afresh.** After a tick that saw the counter of a
process at `c0`, a reset, and further operations up to a tick that sees it at
`c1`, the rows since the reset leave out the `c0` bytes exactly when neither this
reset nor a later one had anything to forget. -/
theorem reset_counts_afresh_iff (e : Endian) (pid : UInt32) (p : Protocol) (d : Dir)
    (earlier gap post : List Op) (m0 m1 : StatsMap)
    (htracked : ∃ i ∈ (after e .new earlier).procs, i.pid = pid) (hgap : mapsOf gap = [])
    (hfinds : ∀ op ∈ .collectRows m0 :: gap ++ .reset :: post ++ [.collectRows m1],
      op.Finds e pid)
    (hgrow : (mapsOf (.collectRows m0 :: gap ++ .reset :: post ++ [.collectRows m1])).Pairwise
      fun m m' => mergedCounter e pid p d m ≤ mergedCounter e pid p d m') :
    CountsAfresh p d (mergedCounter e pid p d m0) (mergedCounter e pid p d m1)
        (rowsOver e pid (after e .new (earlier ++ (.collectRows m0 :: gap ++ [.reset])))
          (post ++ [.collectRows m1])) ↔
      ClearsNothing e pid p d (.collectRows m0 :: gap ++ .reset :: post) := by
  set c0 := mergedCounter e pid p d m0
  set c1 := mergedCounter e pid p d m1
  set start := after e .new (earlier ++ (.collectRows m0 :: gap ++ [.reset]))
  set rows := rowsOver e pid start (post ++ [.collectRows m1])
  have hdist : (after e .new earlier).Distinct := distinct_after StatsCollector.distinct_new _
  have hdist' : start.Distinct := distinct_after StatsCollector.distinct_new _
  have hsplit : .collectRows m0 :: gap ++ .reset :: post ++ [.collectRows m1] =
      (.collectRows m0 :: gap ++ [.reset]) ++ (post ++ [.collectRows m1]) := by simp
  -- The record of the process after the reset.
  obtain ⟨j, hj, rfl, hread⟩ : ∃ j ∈ start.procs, j.pid = pid ∧ j.counter p d = 0 := by
    obtain ⟨i, hi, rfl⟩ := htracked
    obtain ⟨j, hj, hpid, hread⟩ := meter_after hdist hi (.collectRows m0 :: gap ++ [.reset])
      fun op hop => hfinds op (hsplit ▸ List.mem_append_left _ hop)
    rw [← after_append] at hj
    exact ⟨j, hj, hpid, by rw [hread, beats_append, Meter.reading_append]; rfl⟩
  obtain ⟨hdelta, hcum⟩ := meter_rowsOver hdist' hj (post ++ [.collectRows m1])
    (fun op hop => hfinds op (hsplit ▸ List.mem_append_right _ hop)) p d
  rw [hread] at hdelta
  -- The counter only rises, from `c0` to `c1` and between them.
  rw [hsplit, mapsOf_append, List.pairwise_append] at hgrow
  obtain ⟨-, hrise, hcross⟩ := hgrow
  have hle : c0 ≤ c1 := hcross m0 (by simp [mapsOf]) m1 (by simp [mapsOf_append, mapsOf])
  have hrising : Meter.Rising (beats e j.pid p d (post ++ [.collectRows m1])) := by
    rw [Meter.Rising, samples_beats, List.pairwise_map]
    exact hrise
  have hrising' : Meter.Rising (beats e j.pid p d post) := by
    rw [mapsOf_append] at hrise
    rw [Meter.Rising, samples_beats, List.pairwise_map]
    exact (List.pairwise_append.mp hrise).1
  -- What the rows say.
  have hbeats : beats e j.pid p d (post ++ [.collectRows m1]) =
      beats e j.pid p d post ++ [.sample c1] := beats_append _ _
  have hlast : (rows.map fun r => (r.cum p d).toNat).getLast? = some c1 := by
    rw [hcum, mapsOf_append, List.map_append]
    simp [mapsOf, c1]
  have hsum : (rows.map fun r => (r.delta p d).toNat).sum =
      c1 + Meter.cleared 0 (beats e j.pid p d post) := by
    have hbooks := Meter.sum_deltas 0 hrising fun v _ => Nat.zero_le v
    rw [hdelta, ← Nat.add_zero (List.sum _), hbooks, hbeats, Meter.cleared_append_sample,
      Meter.reading_append]
    rfl
  have hcleared := Meter.cleared_eq_zero_iff 0 hrising' fun v _ => Nat.zero_le v
  have hfresh : ClearsNothing e j.pid p d (.collectRows m0 :: gap ++ .reset :: post) ↔
      c0 = 0 ∧ Meter.FreshResets (beats e j.pid p d post) := by
    have hgap' : Meter.samples (beats e j.pid p d gap) = [] := by rw [samples_beats, hgap]; rfl
    rw [← freshResets_beats, List.cons_append, beats, Meter.FreshResets, beats_append,
      Meter.freshResets_append hgap', beats]
    simp [Meter.FreshResets, c0]
  rw [List.getLast?_map, Option.map_eq_some_iff] at hlast
  obtain ⟨r, hr, hrcum⟩ := hlast
  simp only [implies_true, true_and] at hcleared
  rw [CountsAfresh, hr, hsum, hfresh, ← hcleared]
  simp only [Option.mem_def, Option.some.injEq, forall_eq', hrcum]
  omega

/-- A process whose first tick saw nothing starts afresh at a reset: what it sends
later is counted once. -/
theorem reset_counts_afresh_idle :
    CountsAfresh .tcp .sent 0 60
      (rowsOver .little 7 (after .little .new
        ([.applyEvent ⟨7, "curl"⟩] ++ (.collectRows (singleCounter 7 0) :: [] ++ [.reset])))
        ([] ++ [.collectRows (singleCounter 7 60)])) := by
  have hc : mergedCounter .little 7 .tcp .sent (singleCounter 7 0) = 0 := by decide +kernel
  have hc' : mergedCounter .little 7 .tcp .sent (singleCounter 7 60) = 60 := by decide +kernel
  have h := reset_counts_afresh_iff .little 7 .tcp .sent [.applyEvent ⟨7, "curl"⟩] [] []
    (singleCounter 7 0) (singleCounter 7 60)
    ((by decide +kernel :
      ∃ i ∈ (after .little .new [.applyEvent ⟨7, "curl"⟩]).procs, i.pid = 7))
    rfl
    (by simp [Op.Finds, singleCounter, mergeValuesForPid_ofValues])
    (by simp [mapsOf, hc])
  rw [hc, hc'] at h
  refine h.mpr ?_
  simp [clearsNothing_cons, clearsNothing_nil, hc]

/-- **A reset does not start counting afresh**: a process that sent 100 bytes and
nothing since is reported to have sent 100 bytes at the tick after the reset. -/
theorem reset_counts_again :
    ¬ CountsAfresh .tcp .sent
      (mergedCounter .little 7 .tcp .sent (singleCounter 7 100))
      (mergedCounter .little 7 .tcp .sent (singleCounter 7 100))
      (rowsOver .little 7 (after .little .new
        [.applyEvent ⟨7, "curl"⟩, .collectRows (singleCounter 7 100), .reset])
        [.collectRows (singleCounter 7 100)]) := by
  rintro ⟨-, hsum⟩
  revert hsum
  decide +kernel

end Reset

end Procnet
