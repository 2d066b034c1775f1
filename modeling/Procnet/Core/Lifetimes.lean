import Procnet.Core.Accounting
import Procnet.Lib.Trace

/-!
# The collector as a book of processes

A collector keeps its processes in a vector, which every tick rearranges while it goes through it.
Nothing of this can be seen from the outside: what is on record of a process depends on the
operations about this process alone (`Op.record`), as if every one had a page of its own in a book.

* `collector_refines_book` – over every run the vector holds what is on these pages, the rows are
  those read off them, and the dead list the last 20 processes that were struck off since the last
  reset.
* `tracked_iff` – what a run must be like for a process to be tracked at its end, and with which
  record.
-/

namespace Procnet

open Lib

/-! ### The page of a process -/

section Book

variable (e : Endian) (pid : UInt32)

/-- What an operation makes of what is on record of a process. -/
def Op.record (r : Option ProcInfo) : Op → Option ProcInfo
  | .applyEvent event => if event.pid = pid then some event.info else r
  | .collectRows m => r.bind fun i => (mergeValuesForPid e m pid).map i.sampled
  | .reset => r.map fun i => { i with tcpCum := default, udpCum := default }

/-- The rows it has of the process. -/
def Op.rowsOf (r : Option ProcInfo) : Op → List StatsRow
  | .collectRows m => (r.bind fun i => (mergeValuesForPid e m pid).map i.row).toList
  | .applyEvent _ | .reset => []

/-- What is on record of a process after a run. -/
def recordOver (r : Option ProcInfo) (ops : List Op) : Option ProcInfo :=
  ops.foldl (fun r op => op.record e pid r) r

/-- The rows of a process over a run, from what is on record of it. -/
def bookRows : Option ProcInfo → List Op → List StatsRow
  | _, [] => []
  | r, op :: ops => op.rowsOf e pid r ++ bookRows (op.record e pid r) ops

end Book

/-- The processes that have been struck off since the last reset, tick by tick. In which order
those of one tick come is left open. -/
inductive StruckOff (e : Endian) : List Op → List ProcInfo → Prop
  | nil : StruckOff e [] []
  | applyEvent {ops : List Op} {lost : List ProcInfo} (event : ProcStartEvent) :
      StruckOff e ops lost → StruckOff e (ops ++ [.applyEvent event]) lost
  | collectRows {ops : List Op} {lost : List ProcInfo} {m : StatsMap} (now : List ProcInfo) :
      StruckOff e ops lost → (now.map ProcInfo.pid).Nodup →
      (∀ i, i ∈ now ↔
        recordOver e i.pid none ops = some i ∧ mergeValuesForPid e m i.pid = none) →
      StruckOff e (ops ++ [.collectRows m]) (lost ++ now)
  | reset {ops : List Op} {lost : List ProcInfo} :
      StruckOff e ops lost → StruckOff e (ops ++ [.reset]) []

variable {e : Endian} {pid : UInt32}

theorem recordOver_concat (r : Option ProcInfo) (ops : List Op) (op : Op) :
    recordOver e pid r (ops ++ [op]) = op.record e pid (recordOver e pid r ops) :=
  List.foldl_append

/-! ### The vector holds what is on the pages -/

/-- A collector tracks the processes of a book. -/
def StatsCollector.Holds (c : StatsCollector) (book : UInt32 → Option ProcInfo) : Prop :=
  ∀ pid i, (i ∈ c.procs ∧ i.pid = pid) ↔ book pid = some i

namespace StatsCollector.Holds

variable {c : StatsCollector} {book : UInt32 → Option ProcInfo}

theorem mem_iff (h : c.Holds book) (i : ProcInfo) : i ∈ c.procs ↔ book i.pid = some i := by
  rw [← h, and_iff_left rfl]

theorem new : StatsCollector.new.Holds fun _ => none := by
  simp [Holds, StatsCollector.new]

/-- The step lemma: every operation turns the pages, each on its own. -/
theorem run (h : c.Holds book) (hd : c.Distinct) (op : Op) :
    (op.run e c).1.Holds fun pid => op.record e pid (book pid) := by
  intro pid i
  show _ ↔ op.record e pid (book pid) = some i
  cases op with
  | applyEvent event =>
    -- A new page for the process of the event, and no other one is touched.
    rw [Op.run, mem_procs_applyEvent hd, Op.record]
    split_ifs with hpid
    · rw [Option.some.injEq]
      constructor
      · rintro ⟨⟨-, hne⟩ | rfl, rfl⟩
        · exact absurd hpid.symm hne
        · rfl
      · rintro rfl
        exact ⟨Or.inr rfl, hpid⟩
    · rw [← h]
      constructor
      · rintro ⟨⟨hi, -⟩ | rfl, rfl⟩
        · exact ⟨hi, rfl⟩
        · exact absurd rfl hpid
      · rintro ⟨hi, rfl⟩
        exact ⟨Or.inl ⟨hi, Ne.symm hpid⟩, rfl⟩
  | collectRows m =>
    -- Those that are not found are struck off, and the others brought up to date.
    simp only [Op.run, mem_procs_collectRows, Op.record, Option.bind_eq_some_iff,
      Option.map_eq_some_iff]
    constructor
    · rintro ⟨⟨j, hj, s, hs, rfl⟩, rfl⟩
      exact ⟨j, (h _ _).mp ⟨hj, rfl⟩, s, hs, rfl⟩
    · rintro ⟨j, hj, s, hs, rfl⟩
      obtain ⟨hmem, rfl⟩ := (h _ _).mpr hj
      exact ⟨⟨j, hmem, s, hs, rfl⟩, rfl⟩
  | reset =>
    simp only [Op.run, reset, List.mem_map, Op.record, Option.map_eq_some_iff]
    constructor
    · rintro ⟨⟨j, hj, rfl⟩, rfl⟩
      exact ⟨j, (h _ _).mp ⟨hj, rfl⟩, rfl⟩
    · rintro ⟨j, hj, rfl⟩
      obtain ⟨hmem, rfl⟩ := (h _ _).mpr hj
      exact ⟨⟨j, hmem, rfl⟩, rfl⟩

/-- Over a run. -/
theorem after (h : c.Holds book) (hd : c.Distinct) (ops : List Op) :
    (Procnet.after e c ops).Holds fun pid => recordOver e pid (book pid) ops := by
  induction ops generalizing c book with
  | nil => exact h
  | cons op ops ih => exact ih (h.run hd op) (op.distinct_run hd)

/-- The rows of an operation are those read off the pages. -/
theorem rowsFor_run (h : c.Holds book) (hd : c.Distinct) (pid : UInt32) (op : Op) :
    rowsFor pid (op.run e c).2 = op.rowsOf e pid (book pid) := by
  cases op with
  | applyEvent event => rfl
  | reset => rfl
  | collectRows m =>
    rw [Op.rowsOf]
    cases hrow : (book pid).bind fun i => (mergeValuesForPid e m pid).map i.row with
    | some r =>
      obtain ⟨i, hi, hmap⟩ := Option.bind_eq_some_iff.mp hrow
      obtain ⟨s, hs, rfl⟩ := Option.map_eq_some_iff.mp hmap
      obtain ⟨hmem, rfl⟩ := (h _ _).mpr hi
      exact rowsFor_collectRows hd hmem hs []
    | none =>
      refine List.filter_eq_nil_iff.mpr fun r hr hpid => ?_
      obtain ⟨j, hj, s, hs, rfl⟩ := (mem_rows_collectRows []).mp hr
      obtain rfl : j.pid = pid := by simpa [ProcInfo.row] using hpid
      rw [(h _ _).mp ⟨hj, rfl⟩, Option.bind_some, hs] at hrow
      cases hrow

/-- Over a run. -/
theorem rowsOver (h : c.Holds book) (hd : c.Distinct) (pid : UInt32) (ops : List Op) :
    Procnet.rowsOver e pid c ops = bookRows e pid (book pid) ops := by
  induction ops generalizing c book with
  | nil => rfl
  | cons op ops ih =>
    rw [Procnet.rowsOver, bookRows, h.rowsFor_run hd, ih (h.run hd op) (op.distinct_run hd)]

end StatsCollector.Holds

theorem holds_after (e : Endian) (ops : List Op) :
    (after e .new ops).Holds fun pid => recordOver e pid none ops :=
  StatsCollector.Holds.new.after StatsCollector.distinct_new ops

/-- **The dead list is the end of the list of those struck off.** -/
theorem exists_struckOff (e : Endian) (ops : List Op) :
    ∃ lost, StruckOff e ops lost ∧
      (after e .new ops).deadProcs = lost.rtake DEAD_PROC_LIMIT := by
  induction ops using List.reverseRecOn with
  | nil => exact ⟨[], .nil, rfl⟩
  | append_singleton ops op ih =>
    obtain ⟨lost, hlost, hdead⟩ := ih
    have hafter : after e .new (ops ++ [op]) = (op.run e (after e .new ops)).1 :=
      after_append _ _ _
    cases op with
    | applyEvent event =>
      refine ⟨lost, .applyEvent event hlost, ?_⟩
      rw [hafter, ← hdead]
      exact StatsCollector.deadProcs_applyEvent _ event
    | reset => exact ⟨[], .reset hlost, by rw [hafter]; rfl⟩
    | collectRows m =>
      have hlen : (after e .new ops).deadProcs.length ≤ DEAD_PROC_LIMIT := by
        rw [hdead]
        exact length_rtake_le _ _
      have hdist : (after e .new ops).Distinct := distinct_after StatsCollector.distinct_new _
      refine ⟨lost ++ (after e .new ops).departed e m, .collectRows _ hlost ?_ fun i => ?_, ?_⟩
      · have hperm := (StatsCollector.order_perm (e := e) (m := m) (after e .new ops)).map
          ProcInfo.pid
        exact (hperm.nodup_iff.mpr hdist).sublist (List.filter_sublist.map _)
      · rw [StatsCollector.mem_departed, (holds_after e ops).mem_iff]
      · -- The list has been cut at every tick, which is as good as cutting it once.
        rw [hafter, ← rtake_rtake_append, ← hdead]
        exact StatsCollector.deadProcs_collectRows hlen []

/-- **The collector is a book of processes.** Over every run of events, ticks and resets, what is
tracked is what is on record, process by process; the rows are those read off the records; and the
dead list consists of the last 20 processes struck off since the last reset, each with what was on
record of it. -/
theorem collector_refines_book (e : Endian) (ops : List Op) :
    (∀ i, i ∈ (after e .new ops).procs ↔ recordOver e i.pid none ops = some i) ∧
    (∀ pid, rowsOver e pid .new ops = bookRows e pid none ops) ∧
    ∃ lost, StruckOff e ops lost ∧
      (after e .new ops).deadProcs = lost.rtake DEAD_PROC_LIMIT :=
  ⟨(holds_after e ops).mem_iff,
    fun pid => StatsCollector.Holds.new.rowsOver StatsCollector.distinct_new pid ops,
    exists_struckOff e ops⟩

/-! ### What is tracked, and since when -/

section Tracked

variable (e) (pid)

/-- The counters that an operation leaves on record. -/
def Op.counters : Op → Option (StatsBytes × StatsBytes)
  | .applyEvent _ => none
  | .collectRows m => (mergeValuesForPid e m pid).map fun s => (s.tcp.bytes, s.udp.bytes)
  | .reset => some default

/-- An operation that leaves a process tracked, and does not announce it again. -/
def Op.Keeps (op : Op) : Prop := op.Finds e pid ∧ ∀ event, op = .applyEvent event → event.pid ≠ pid

variable {e pid}

/-- What such an operation leaves on record. -/
theorem Op.Keeps.record {op : Op} (h : op.Keeps e pid) (name : String)
    (cum : StatsBytes × StatsBytes) :
    op.record e pid (some ⟨pid, name, cum.1, cum.2⟩) =
      some ⟨pid, name, ((op.counters e pid).getD cum).1, ((op.counters e pid).getD cum).2⟩ := by
  obtain ⟨hfinds, hevent⟩ := h
  cases op with
  | applyEvent event =>
    rw [Op.record, if_neg (hevent event rfl)]
    rfl
  | reset => rfl
  | collectRows m =>
    obtain ⟨s, hs⟩ := Option.isSome_iff_exists.mp hfinds
    rw [Op.record, Option.bind_some, Op.counters, hs]
    rfl

/-- What is on record of a process that has been announced and kept. -/
theorem recordOver_of_keeps {later : List Op} (h : ∀ op ∈ later, op.Keeps e pid) (name : String)
    (cum : StatsBytes × StatsBytes) :
    recordOver e pid (some ⟨pid, name, cum.1, cum.2⟩) later =
      some ⟨pid, name, (latest (Op.counters e pid) cum later).1,
        (latest (Op.counters e pid) cum later).2⟩ := by
  induction later using List.reverseRecOn with
  | nil => rfl
  | append_singleton later op ih =>
    rw [recordOver_concat, ih fun op' hop' => h op' (List.mem_append_left _ hop'),
      (h op (by simp)).record, latest_concat]

/-- **Where a record comes from**: the process has been announced, and kept since. -/
theorem exists_of_recordOver {ops : List Op} {i : ProcInfo}
    (h : recordOver e pid none ops = some i) :
    ∃ before event later, ops = before ++ .applyEvent event :: later ∧ event.pid = pid ∧
      ∀ op ∈ later, op.Keeps e pid := by
  induction ops using List.reverseRecOn generalizing i with
  | nil => cases h
  | append_singleton ops op ih =>
    rw [recordOver_concat] at h
    -- An operation that keeps the process goes to the end of those that did.
    have hkeep : ∀ {j}, recordOver e pid none ops = some j → op.Keeps e pid →
        ∃ before event later, ops ++ [op] = before ++ .applyEvent event :: later ∧
          event.pid = pid ∧ ∀ op ∈ later, op.Keeps e pid := by
      intro j hj hop
      obtain ⟨before, event, later, rfl, hpid, hlater⟩ := ih hj
      refine ⟨before, event, later ++ [op], by simp, hpid, fun op' hop' => ?_⟩
      rcases List.mem_append.mp hop' with hmem | hmem
      · exact hlater op' hmem
      · obtain rfl := List.mem_singleton.mp hmem
        exact hop
    cases op with
    | applyEvent event =>
      rw [Op.record] at h
      split_ifs at h with hpid
      · exact ⟨ops, event, [], rfl, hpid, by simp⟩
      · refine hkeep h ⟨trivial, ?_⟩
        rintro event' ⟨rfl⟩
        exact hpid
    | collectRows m =>
      obtain ⟨j, hj, hmap⟩ := Option.bind_eq_some_iff.mp h
      obtain ⟨s, hs, -⟩ := Option.map_eq_some_iff.mp hmap
      exact hkeep hj ⟨Option.isSome_of_eq_some hs, by simp⟩
    | reset =>
      obtain ⟨j, hj, -⟩ := Option.map_eq_some_iff.mp h
      exact hkeep hj ⟨trivial, by simp⟩

/-- **What is tracked, and since when**: a process is tracked after a run exactly if it has been
announced, and every tick since its last announcement has found it. Its name is the one announced
then, and its counters are those of the last tick or reset since. -/
theorem tracked_iff (e : Endian) (ops : List Op) (i : ProcInfo) :
    i ∈ (after e .new ops).procs ↔
      ∃ before event later, ops = before ++ .applyEvent event :: later ∧ event.pid = i.pid ∧
        (∀ op ∈ later, op.Keeps e i.pid) ∧ i.name = makeAsciiLowercase event.name ∧
        (i.tcpCum, i.udpCum) = latest (Op.counters e i.pid) default later := by
  rw [(holds_after e ops).mem_iff]
  have hrecord : ∀ {before event later}, ops = before ++ .applyEvent event :: later →
      event.pid = i.pid → (∀ op ∈ later, op.Keeps e i.pid) →
      recordOver e i.pid none ops = some ⟨i.pid, makeAsciiLowercase event.name,
        (latest (Op.counters e i.pid) default later).1,
        (latest (Op.counters e i.pid) default later).2⟩ := by
    rintro before event later rfl hpid hlater
    rw [← recordOver_of_keeps hlater, ← hpid, recordOver, List.foldl_append, List.foldl_cons,
      Op.record, if_pos rfl]
    rfl
  constructor
  · intro h
    obtain ⟨before, event, later, hops, hpid, hlater⟩ := exists_of_recordOver h
    have hi := Option.some.inj (h.symm.trans (hrecord hops hpid hlater))
    exact ⟨before, event, later, hops, hpid, hlater, congrArg ProcInfo.name hi,
      Prod.ext (congrArg ProcInfo.tcpCum hi) (congrArg ProcInfo.udpCum hi)⟩
  · rintro ⟨before, event, later, hops, hpid, hlater, hname, hcum⟩
    rw [hrecord hops hpid hlater, ← hname, ← hcum]

end Tracked

end Procnet
