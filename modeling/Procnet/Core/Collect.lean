import Procnet.Core.Stats
import Mathlib.Data.List.Nodup
import Mathlib.Data.List.Perm.Basic

/-!
# What one tick of the collector computes

The loop of `StatsCollector.collectRows` visits every tracked process exactly
once, in the order `order` that its in-place removals produce. Everything it
leaves behind is a function of that order (`collectRows_eq`): the processes whose
lookup succeeded stay, resampled, each with its row; the others go to the dead
list. Up to the order, it is a partition of the tracked processes
(`perm_procs_collectRows`, `perm_rows_collectRows`).

The pids of the tracked processes are pairwise distinct (`Distinct`), which every
operation keeps; with it, an operation can be read process by process
(`mem_procs_applyEvent`, `mem_procs_collectRows`, `rowsFor_collectRows`), and the
results about runs are stated in these terms.
-/

namespace Procnet

open Lib

variable {e : Endian} {m : StatsMap}

/-! ### The loop -/

/-- The record an event leaves for its process. -/
def ProcStartEvent.info (ev : ProcStartEvent) : ProcInfo :=
  ⟨ev.pid, makeAsciiLowercase ev.name, default, default⟩

/-- The rows of a pid. -/
def rowsFor (pid : UInt32) (out : List StatsRow) : List StatsRow :=
  out.filter fun r => r.pid == pid

/-- Whether the lookup of a process finds it. -/
def isAlive (e : Endian) (m : StatsMap) (i : ProcInfo) : Bool :=
  (mergeValuesForPid e m i.pid).isSome

/-- A process after a tick, if it is still there. -/
def sample (e : Endian) (m : StatsMap) (i : ProcInfo) : Option ProcInfo :=
  (mergeValuesForPid e m i.pid).map i.sampled

/-- The row of a process at a tick, if it is still there. -/
def sampleRow (e : Endian) (m : StatsMap) (i : ProcInfo) : Option StatsRow :=
  (mergeValuesForPid e m i.pid).map i.row

/-- The order in which a tick looks the tracked processes up. -/
def StatsCollector.order (e : Endian) (m : StatsMap) (c : StatsCollector) : List ProcInfo :=
  visitOrder (isAlive e m) c.procs

/-- The processes a tick finds gone, in the order it finds them. -/
def StatsCollector.departed (e : Endian) (m : StatsMap) (c : StatsCollector) : List ProcInfo :=
  (c.order e m).filter fun i => !isAlive e m i

/-! ### The loop of a tick -/

/-- A process that is found stays where it is, with what was found. -/
theorem Sweep.visit_some {s : Sweep} {done todo : List ProcInfo} {i : ProcInfo}
    (hprocs : s.procs = done ++ i :: todo) (hidx : s.idx = done.length) (new : ProcStats) :
    s.visit i (some new) =
      { s with
        procs := done ++ i.sampled new :: todo
        out := s.out ++ [i.row new]
        idx := s.idx + 1 } := by
  rw [visit, hprocs, hidx, List.set_append_right _ _ (le_refl _), Nat.sub_self, List.set_cons_zero]

/-- The last process takes the place of one that is not found. -/
theorem Sweep.visit_none {s : Sweep} {done todo : List ProcInfo} {i : ProcInfo}
    (hprocs : s.procs = done ++ i :: todo) (hidx : s.idx = done.length) :
    s.visit i none =
      { s with
        procs := done ++ moveLast todo
        deadProcs := pushRecent DEAD_PROC_LIMIT s.deadProcs i } := by
  rw [visit, hprocs, hidx, swapRemove_append]

/-- **What the loop leaves behind**, from any of its iterations on: the processes
before the index are done with, those from the index on are visited in
`visitOrder`. The induction is the one of `visitOrder`. -/
theorem Sweep.loop_eq (todo done dead : List ProcInfo) (out : List StatsRow) :
    Sweep.loop e m ⟨done ++ todo, dead, out, done.length⟩ =
      ⟨done ++ (visitOrder (isAlive e m) todo).filterMap (sample e m),
        ((visitOrder (isAlive e m) todo).filter fun i => !isAlive e m i).foldl
          (pushRecent DEAD_PROC_LIMIT) dead,
        out ++ (visitOrder (isAlive e m) todo).filterMap (sampleRow e m),
        done.length + ((visitOrder (isAlive e m) todo).filterMap (sample e m)).length⟩ := by
  induction todo using visit_induction (k := isAlive e m) generalizing done dead out with
  | nil =>
    rw [Sweep.loop, dif_neg (by simp), visitOrder_nil]
    simp
  | cons_keep p todo halive ih =>
    obtain ⟨s, hp⟩ := Option.isSome_iff_exists.mp halive
    have hlt : done.length < (done ++ p :: todo).length := by simp
    have hget : (done ++ p :: todo)[done.length] = p := by simp
    have hvisit := Sweep.visit_some (s := ⟨done ++ p :: todo, dead, out, done.length⟩) rfl rfl s
    have hlen : done.length + 1 = (done ++ [p.sampled s]).length := by simp
    rw [Sweep.loop, dif_pos (by simp)]
    simp only [hget, hp, hvisit]
    rw [hlen, List.append_cons, ih, visitOrder_cons_keep halive]
    simp [sample, sampleRow, hp, halive]
    omega
  | cons_drop p todo halive ih =>
    have hp : mergeValuesForPid e m p.pid = none := by simpa [isAlive] using halive
    have hlt : done.length < (done ++ p :: todo).length := by simp
    have hget : (done ++ p :: todo)[done.length] = p := by simp
    have hvisit := Sweep.visit_none (s := ⟨done ++ p :: todo, dead, out, done.length⟩) rfl rfl
    rw [Sweep.loop, dif_pos (by simp)]
    simp only [hget, hp, hvisit]
    rw [ih, visitOrder_cons_drop halive]
    simp [sample, sampleRow, hp, halive]

namespace StatsCollector

variable {c : StatsCollector}

/-- **What a tick computes**, as a function of the order in which it visits the
tracked processes. -/
theorem collectRows_eq (c : StatsCollector) (out : List StatsRow) :
    c.collectRows e m out =
      (⟨(c.order e m).filterMap (sample e m),
        (c.departed e m).foldl (pushRecent DEAD_PROC_LIMIT) c.deadProcs⟩,
        (c.order e m).filterMap (sampleRow e m)) := by
  have h := Sweep.loop_eq (e := e) (m := m) c.procs [] c.deadProcs []
  simp only [List.nil_append, List.length_nil] at h
  simp only [collectRows, Sweep.start, h]
  rfl

theorem order_perm (c : StatsCollector) : (c.order e m).Perm c.procs :=
  visitOrder_perm _ _

theorem perm_procs_collectRows (c : StatsCollector) (out : List StatsRow) :
    (c.collectRows e m out).1.procs.Perm (c.procs.filterMap (sample e m)) := by
  rw [collectRows_eq]
  exact (order_perm c).filterMap _

theorem perm_rows_collectRows (c : StatsCollector) (out : List StatsRow) :
    (c.collectRows e m out).2.Perm (c.procs.filterMap (sampleRow e m)) := by
  rw [collectRows_eq]
  exact (order_perm c).filterMap _

theorem deadProcs_collectRows (h : c.deadProcs.length ≤ DEAD_PROC_LIMIT) (out : List StatsRow) :
    (c.collectRows e m out).1.deadProcs =
      (c.deadProcs ++ c.departed e m).rtake DEAD_PROC_LIMIT := by
  rw [collectRows_eq]
  exact foldl_pushRecent _ _ h

theorem length_deadProcs_collectRows (h : c.deadProcs.length ≤ DEAD_PROC_LIMIT)
    (out : List StatsRow) :
    (c.collectRows e m out).1.deadProcs.length ≤ DEAD_PROC_LIMIT := by
  rw [deadProcs_collectRows h]
  exact length_rtake_le _ _

/-- A process is tracked after a tick when it was before and its lookup found
it. -/
theorem mem_procs_collectRows {i : ProcInfo} (out : List StatsRow) :
    i ∈ (c.collectRows e m out).1.procs ↔
      ∃ j ∈ c.procs, ∃ s, mergeValuesForPid e m j.pid = some s ∧ j.sampled s = i := by
  rw [(perm_procs_collectRows c out).mem_iff, List.mem_filterMap]
  simp only [sample, Option.map_eq_some_iff]

/-- A tick has a row for every tracked process its lookups found. -/
theorem mem_rows_collectRows {r : StatsRow} (out : List StatsRow) :
    r ∈ (c.collectRows e m out).2 ↔
      ∃ j ∈ c.procs, ∃ s, mergeValuesForPid e m j.pid = some s ∧ j.row s = r := by
  rw [(perm_rows_collectRows c out).mem_iff, List.mem_filterMap]
  simp only [sampleRow, Option.map_eq_some_iff]

theorem mem_departed {i : ProcInfo} :
    i ∈ c.departed e m ↔ i ∈ c.procs ∧ mergeValuesForPid e m i.pid = none := by
  simp [departed, (order_perm c).mem_iff, isAlive]

/-! ### Distinct pids -/

/-- The tracked processes have pairwise distinct pids. -/
def Distinct (c : StatsCollector) : Prop := (c.procs.map ProcInfo.pid).Nodup

theorem distinct_new : new.Distinct := List.nodup_nil

/-- What a tick keeps of each process, its pid included, is kept of those alive. -/
theorem map_filterMap_alive {β : Type} (mk : ProcInfo → ProcStats → β) (pid : β → UInt32)
    (hpid : ∀ i s, pid (mk i s) = i.pid) (l : List ProcInfo) :
    (l.filterMap fun i => (mergeValuesForPid e m i.pid).map (mk i)).map pid =
      (l.filter (isAlive e m)).map ProcInfo.pid := by
  induction l with
  | nil => rfl
  | cons i l ih =>
    cases hi : mergeValuesForPid e m i.pid with
    | none => simpa [isAlive, hi] using ih
    | some s => simpa [isAlive, hi, hpid] using ih

theorem distinct_collectRows (h : c.Distinct) (out : List StatsRow) :
    (c.collectRows e m out).1.Distinct := by
  rw [Distinct, ((perm_procs_collectRows c out).map _).nodup_iff]
  exact map_filterMap_alive ProcInfo.sampled ProcInfo.pid (fun _ _ => rfl) c.procs ▸
    h.sublist (List.filter_sublist.map _)

/-- **The rows of a tick have distinct pids.** -/
theorem nodup_rows_collectRows (h : c.Distinct) (out : List StatsRow) :
    ((c.collectRows e m out).2.map StatsRow.pid).Nodup := by
  rw [((perm_rows_collectRows c out).map _).nodup_iff]
  exact map_filterMap_alive ProcInfo.row StatsRow.pid (fun _ _ => rfl) c.procs ▸
    h.sublist (List.filter_sublist.map _)

/-! ### Events and resets, record by record -/

/-- **What an event can do**: overwrite the record of its pid in place, or add
one at the end. -/
theorem applyEvent_cases (c : StatsCollector) (ev : ProcStartEvent) :
    (∃ l old r, c.procs = l ++ old :: r ∧ old.pid = ev.pid ∧
      c.applyEvent ev = { c with procs := l ++ ev.info :: r }) ∨
    ((∀ i ∈ c.procs, i.pid ≠ ev.pid) ∧
      c.applyEvent ev = { c with procs := c.procs ++ [ev.info] }) := by
  unfold applyEvent
  cases hfind : c.procs.findIdx? fun p => p.pid == ev.pid with
  | none =>
    refine Or.inr ⟨fun i hi => ?_, rfl⟩
    simpa using List.findIdx?_eq_none_iff.mp hfind i hi
  | some k =>
    obtain ⟨hk, hpid, -⟩ := List.findIdx?_eq_some_iff_getElem.mp hfind
    obtain ⟨l, old, r, hprocs, rfl, hmod⟩ := List.exists_of_modify (fun p : ProcInfo =>
      { p with name := makeAsciiLowercase ev.name, tcpCum := default, udpCum := default }) hk
    have hold : old.pid = ev.pid := by simpa [hprocs] using hpid
    refine Or.inl ⟨l, old, r, hprocs, hold, ?_⟩
    simp only [hmod, ProcStartEvent.info, hold]

/-- **An event replaces the record of its pid**, or adds one, and leaves the
others alone. -/
theorem mem_procs_applyEvent (h : c.Distinct) {ev : ProcStartEvent} {i : ProcInfo} :
    i ∈ (c.applyEvent ev).procs ↔ (i ∈ c.procs ∧ i.pid ≠ ev.pid) ∨ i = ev.info := by
  rcases applyEvent_cases c ev with ⟨l, old, r, hprocs, hold, heq⟩ | ⟨hnone, heq⟩
  · have hpids : (old.pid :: (l ++ r).map ProcInfo.pid).Nodup := by
      have hperm : (c.procs.map ProcInfo.pid).Perm (old.pid :: (l ++ r).map ProcInfo.pid) := by
        simp [hprocs]
      exact hperm.nodup_iff.mp h
    have hother : ∀ j ∈ l ++ r, j.pid ≠ ev.pid := fun j hj hpid =>
      (List.nodup_cons.mp hpids).1 (List.mem_map.mpr ⟨j, hj, hpid.trans hold.symm⟩)
    rw [heq, hprocs]
    simp only [List.mem_append, List.mem_cons] at hother ⊢
    constructor
    · rintro (hi | rfl | hi)
      · exact Or.inl ⟨Or.inl hi, hother i (Or.inl hi)⟩
      · exact Or.inr rfl
      · exact Or.inl ⟨Or.inr (Or.inr hi), hother i (Or.inr hi)⟩
    · rintro (⟨hi | rfl | hi, hpid⟩ | rfl)
      · exact Or.inl hi
      · exact absurd hold hpid
      · exact Or.inr (Or.inr hi)
      · exact Or.inr (Or.inl rfl)
  · rw [heq]
    simp only [List.mem_append, List.mem_singleton]
    exact or_congr_left ⟨fun hi => ⟨hi, hnone i hi⟩, And.left⟩

theorem distinct_applyEvent (h : c.Distinct) (ev : ProcStartEvent) :
    (c.applyEvent ev).Distinct := by
  rcases applyEvent_cases c ev with ⟨l, old, r, hprocs, hold, heq⟩ | ⟨hnone, heq⟩
  · have hpids : (c.applyEvent ev).procs.map ProcInfo.pid = c.procs.map ProcInfo.pid := by
      simp [heq, hprocs, hold, ProcStartEvent.info]
    rw [Distinct, hpids]
    exact h
  · rw [Distinct, heq, List.map_append, List.nodup_append]
    refine ⟨h, List.nodup_singleton _, fun p hp q hq hpq => ?_⟩
    obtain ⟨i, hi, rfl⟩ := List.mem_map.mp hp
    obtain rfl : q = ev.pid := by simpa [ProcStartEvent.info] using hq
    exact hnone i hi hpq

@[simp] theorem deadProcs_applyEvent (c : StatsCollector) (ev : ProcStartEvent) :
    (c.applyEvent ev).deadProcs = c.deadProcs := by
  unfold applyEvent
  split <;> rfl

/-- **New processes are added in the order of their events.** -/
theorem foldl_applyEvent_fresh {events : List ProcStartEvent}
    (hnodup : (events.map ProcStartEvent.pid).Nodup)
    (hfresh : ∀ ev ∈ events, ∀ i ∈ c.procs, i.pid ≠ ev.pid) :
    events.foldl applyEvent c = { c with procs := c.procs ++ events.map ProcStartEvent.info } := by
  induction events generalizing c with
  | nil => simp
  | cons ev events ih =>
    obtain ⟨hev, hnodup'⟩ := List.nodup_cons.mp (List.map_cons ▸ hnodup)
    have hadd : c.applyEvent ev = { c with procs := c.procs ++ [ev.info] } := by
      rcases applyEvent_cases c ev with ⟨l, old, r, hprocs, hold, -⟩ | ⟨-, hadd⟩
      · exact absurd hold (hfresh ev (List.mem_cons_self ..) old (by simp [hprocs]))
      · exact hadd
    rw [List.foldl_cons, hadd, ih hnodup' fun ev' hev' i hi => ?_]
    · simp
    · rcases List.mem_append.mp hi with hi | hi
      · exact hfresh ev' (List.mem_cons_of_mem _ hev') i hi
      · obtain rfl := List.mem_singleton.mp hi
        exact fun heq => hev (List.mem_map.mpr ⟨ev', hev', heq.symm⟩)

theorem distinct_reset (h : c.Distinct) : c.reset.Distinct := by
  simpa [Distinct, reset, Function.comp_def] using h

/-! ### The rows of one process -/

/-- **A tracked process has one row per tick**, if its lookup found it. -/
theorem rowsFor_collectRows (h : c.Distinct) {i : ProcInfo} (hi : i ∈ c.procs) {s : ProcStats}
    (hs : mergeValuesForPid e m i.pid = some s) (out : List StatsRow) :
    rowsFor i.pid (c.collectRows e m out).2 = [i.row s] :=
  filter_key_eq_singleton (nodup_rows_collectRows h out)
    ((mem_rows_collectRows out).mpr ⟨i, hi, s, hs, rfl⟩)

end StatsCollector

end Procnet
