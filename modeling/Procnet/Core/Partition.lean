import Procnet.Core.Accounting

/-!
# A tick as a partition of the tracked processes

`StatsCollector.collectRows` divides the tracked processes: those its lookups find stay, with
a row each, and the others go to the dead list.

* `collectRows_partition` – nothing is lost or made up on the way, whatever is removed where:
  every process is looked up once and ends on one of the two sides, and the rows are those of
  the processes that stay, index by index.
* `collector_wellFormed` – what holds of the collector over every run of start events, ticks and
  resets (`StatsCollector.WellFormed`), and of the rows of every tick.
* `failed_lookup_iff` – the daemon's map reports an error as the absence of the entry, so that a
  tick takes a process whose lookup fails for dead. Processes with an entry stay tracked exactly
  if none of their lookups fails.
-/

namespace Procnet

open Lib

variable {e : Endian} {m : StatsMap}

/-! ### What is looked up -/

/-- The pids that the loop of `StatsCollector.collectRows` looks up, one after the other. -/
def Sweep.lookups (e : Endian) (statsMap : StatsMap) (s : Sweep) : List UInt32 :=
  if h : s.idx < s.procs.length then
    let procInfo := s.procs[s.idx]
    procInfo.pid ::
      lookups e statsMap (s.visit procInfo (mergeValuesForPid e statsMap procInfo.pid))
  else []
  termination_by s.procs.length - s.idx
  decreasing_by exact length_visit_sub_lt h _ _

/-- **The loop looks its processes up in the order of its visits.** The induction is the one of
`Sweep.loop_eq`. -/
theorem Sweep.lookups_eq (todo done dead : List ProcInfo) (out : List StatsRow) :
    Sweep.lookups e m ⟨done ++ todo, dead, out, done.length⟩ =
      (visitOrder (isAlive e m) todo).map ProcInfo.pid := by
  induction todo using visit_induction (k := isAlive e m) generalizing done dead out with
  | nil =>
    rw [Sweep.lookups, dif_neg (by simp), visitOrder_nil]
    rfl
  | cons_keep p todo halive ih =>
    obtain ⟨s, hp⟩ := Option.isSome_iff_exists.mp halive
    have hlt : done.length < (done ++ p :: todo).length := by simp
    have hget : (done ++ p :: todo)[done.length] = p := by simp
    have hvisit := Sweep.visit_some (s := ⟨done ++ p :: todo, dead, out, done.length⟩) rfl rfl s
    have hlen : done.length + 1 = (done ++ [p.sampled s]).length := by simp
    rw [Sweep.lookups, dif_pos (by simp)]
    simp only [hget, hp, hvisit]
    rw [hlen, List.append_cons, ih, visitOrder_cons_keep halive, List.map_cons]
  | cons_drop p todo halive ih =>
    have hp : mergeValuesForPid e m p.pid = none := by simpa [isAlive] using halive
    have hlt : done.length < (done ++ p :: todo).length := by simp
    have hget : (done ++ p :: todo)[done.length] = p := by simp
    have hvisit := Sweep.visit_none (s := ⟨done ++ p :: todo, dead, out, done.length⟩) rfl rfl
    rw [Sweep.lookups, dif_pos (by simp)]
    simp only [hget, hp, hvisit]
    rw [ih, visitOrder_cons_drop halive, List.map_cons]

namespace StatsCollector

variable {c : StatsCollector}

/-- Every tracked process is looked up once. -/
theorem lookups_perm (c : StatsCollector) :
    ((Sweep.start c).lookups e m).Perm (c.procs.map ProcInfo.pid) := by
  have h := Sweep.lookups_eq (e := e) (m := m) c.procs [] c.deadProcs []
  rw [List.nil_append, List.length_nil] at h
  rw [Sweep.start, h]
  exact (visitOrder_perm _ _).map _

/-! ### Rows and processes, index by index -/

/-- What two projections of a lookup make of the same processes stands at the same places. -/
theorem getElem?_filterMap_alive {α β : Type} (f : ProcInfo → ProcStats → α)
    (g : ProcInfo → ProcStats → β) (l : List ProcInfo) (k : ℕ) :
    (∃ i ∈ l, ∃ new, mergeValuesForPid e m i.pid = some new ∧
      (l.filterMap fun i => (mergeValuesForPid e m i.pid).map (f i))[k]? = some (f i new) ∧
      (l.filterMap fun i => (mergeValuesForPid e m i.pid).map (g i))[k]? = some (g i new)) ∨
    ((l.filterMap fun i => (mergeValuesForPid e m i.pid).map (f i))[k]? = none ∧
      (l.filterMap fun i => (mergeValuesForPid e m i.pid).map (g i))[k]? = none) := by
  induction l generalizing k with
  | nil => exact Or.inr ⟨rfl, rfl⟩
  | cons i l ih =>
    cases hi : mergeValuesForPid e m i.pid with
    | none =>
      rw [List.filterMap_cons_none (by rw [hi]; rfl), List.filterMap_cons_none (by rw [hi]; rfl)]
      rcases ih k with ⟨j, hj, h⟩ | h
      · exact Or.inl ⟨j, List.mem_cons_of_mem _ hj, h⟩
      · exact Or.inr h
    | some new =>
      rw [List.filterMap_cons_some (b := f i new) (by rw [hi]; rfl),
        List.filterMap_cons_some (b := g i new) (by rw [hi]; rfl)]
      cases k with
      | zero => exact Or.inl ⟨i, List.mem_cons_self .., new, hi, rfl, rfl⟩
      | succ k =>
        rcases ih k with ⟨j, hj, h⟩ | h
        · exact Or.inl ⟨j, List.mem_cons_of_mem _ hj, h⟩
        · exact Or.inr h

/-- **The row at an index is that of the process at the index.** -/
theorem getElem?_collectRows (c : StatsCollector) (out : List StatsRow) (k : ℕ) :
    (∃ i ∈ c.procs, ∃ new, mergeValuesForPid e m i.pid = some new ∧
      (c.collectRows e m out).1.procs[k]? = some (i.sampled new) ∧
      (c.collectRows e m out).2[k]? = some (i.row new)) ∨
    ((c.collectRows e m out).1.procs[k]? = none ∧ (c.collectRows e m out).2[k]? = none) := by
  rw [collectRows_eq]
  rcases getElem?_filterMap_alive (e := e) (m := m) ProcInfo.sampled ProcInfo.row (c.order e m) k
    with ⟨i, hi, h⟩ | h
  · exact Or.inl ⟨i, (order_perm c).mem_iff.mp hi, h⟩
  · exact Or.inr h

theorem length_rows_collectRows (c : StatsCollector) (out : List StatsRow) :
    (c.collectRows e m out).2.length = (c.collectRows e m out).1.procs.length := by
  have h := congrArg List.length (map_filterMap_alive (e := e) (m := m) ProcInfo.sampled
    ProcInfo.pid (fun _ _ => rfl) (c.order e m))
  have h' := congrArg List.length (map_filterMap_alive (e := e) (m := m) ProcInfo.row
    StatsRow.pid (fun _ _ => rfl) (c.order e m))
  rw [List.length_map, List.length_map] at h h'
  rw [collectRows_eq]
  exact h'.trans h.symm

end StatsCollector

/-- **A tick is a partition of the tracked processes**, whatever the stats map holds: it looks
every process up once; those found stay tracked, with the counters found, and have the rows,
index by index; the others are appended to the dead list as they are, of which the last
`DEAD_PROC_LIMIT` stay. -/
theorem collectRows_partition (e : Endian) (m : StatsMap) (c : StatsCollector)
    (out : List StatsRow) (hdistinct : c.Distinct) (hdead : c.deadProcs.length ≤ DEAD_PROC_LIMIT) :
    ((Sweep.start c).lookups e m).Perm (c.procs.map ProcInfo.pid) ∧
    ((Sweep.start c).lookups e m).Nodup ∧
    (c.collectRows e m out).1.procs.Perm
      (c.procs.filterMap fun i => (mergeValuesForPid e m i.pid).map i.sampled) ∧
    (c.collectRows e m out).2.length = (c.collectRows e m out).1.procs.length ∧
    (∀ (k : ℕ) (p : ProcInfo), (c.collectRows e m out).1.procs[k]? = some p →
      ∃ i ∈ c.procs, ∃ new, mergeValuesForPid e m i.pid = some new ∧
        p = ⟨i.pid, i.name, new.tcp.bytes, new.udp.bytes⟩ ∧
        (c.collectRows e m out).2[k]? = some
          { pid := i.pid
            name := i.name
            tcp := ⟨new.tcp.bytes.saturatingSub i.tcpCum, new.tcp.addr⟩
            udp := ⟨new.udp.bytes.saturatingSub i.udpCum, new.udp.addr⟩
            tcpCum := new.tcp.bytes
            udpCum := new.udp.bytes }) ∧
    ∃ gone, gone.Perm (c.procs.filter fun i => (mergeValuesForPid e m i.pid).isNone) ∧
      (c.collectRows e m out).1.deadProcs = (c.deadProcs ++ gone).rtake DEAD_PROC_LIMIT := by
  refine ⟨StatsCollector.lookups_perm c, ?_, StatsCollector.perm_procs_collectRows c out,
    StatsCollector.length_rows_collectRows c out, ?_, c.departed e m, ?_,
    StatsCollector.deadProcs_collectRows hdead out⟩
  · exact (StatsCollector.lookups_perm c).nodup_iff.mpr hdistinct
  · intro k p hp
    rcases StatsCollector.getElem?_collectRows (e := e) (m := m) c out k with
      ⟨i, hi, new, hnew, hproc, hrow⟩ | ⟨hnone, -⟩
    · rw [hp] at hproc
      exact ⟨i, hi, new, hnew, Option.some.inj hproc, hrow⟩
    · rw [hnone] at hp
      exact absurd hp nofun
  · have halive : ∀ i : ProcInfo, (!isAlive e m i) = (mergeValuesForPid e m i.pid).isNone := by
      intro i
      rw [isAlive]
      cases mergeValuesForPid e m i.pid <;> rfl
    rw [StatsCollector.departed, funext halive]
    exact (StatsCollector.order_perm c).filter _

/-- Three processes, of which the first and the last are gone. -/
theorem collectRows_partition_three :
    let c : StatsCollector := ⟨[⟨1, "a", default, default⟩, ⟨2, "b", default, default⟩,
      ⟨3, "c", default, default⟩], []⟩
    let m := StatsMap.ofValues .little fun pid => if pid = 2 then some [default] else none
    (c.collectRows .little m []).2.length = (c.collectRows .little m []).1.procs.length ∧
    ∃ gone : List ProcInfo,
      gone.Perm (c.procs.filter fun i => (mergeValuesForPid .little m i.pid).isNone) ∧
      (c.collectRows .little m []).1.deadProcs = gone.rtake DEAD_PROC_LIMIT := by
  intro c m
  obtain ⟨-, -, -, hlen, -, hgone⟩ :=
    collectRows_partition .little m c [] (by decide : (c.procs.map ProcInfo.pid).Nodup)
      (by decide : c.deadProcs.length ≤ DEAD_PROC_LIMIT)
  exact ⟨hlen, hgone⟩

/-! ### The representation invariant -/

theorem isUpper_toLower (ch : Char) : ch.toLower.isUpper = false := by
  have hA : 'A'.val.toNat = 65 := rfl
  have hZ : 'Z'.val.toNat = 90 := rfl
  have h32 : ('a'.val - 'A'.val).toNat = 32 := rfl
  refine decide_eq_false ?_
  rw [ge_iff_le, UInt32.le_iff_toNat_le, UInt32.le_iff_toNat_le]
  unfold Char.toLower
  split
  · rename_i h
    have hlo : 65 ≤ ch.val.toNat := UInt32.le_iff_toNat_le.mp h.1
    have hhi : ch.val.toNat ≤ 90 := UInt32.le_iff_toNat_le.mp h.2
    rw [UInt32.toNat_add, h32]
    omega
  · rename_i h
    rw [ge_iff_le, UInt32.le_iff_toNat_le, UInt32.le_iff_toNat_le] at h
    omega

/-- No character of a lower-cased name is an upper-case letter. -/
theorem isUpper_makeAsciiLowercase (name : String) :
    ∀ ch ∈ (makeAsciiLowercase name).toList, ch.isUpper = false := by
  intro ch hch
  rw [makeAsciiLowercase, String.toList_map] at hch
  obtain ⟨ch, -, rfl⟩ := List.mem_map.mp hch
  exact isUpper_toLower ch

/-- What holds of a collector at any time. -/
structure StatsCollector.WellFormed (c : StatsCollector) : Prop where
  /-- The tracked processes have distinct pids. -/
  distinct : c.Distinct
  dead_le : c.deadProcs.length ≤ DEAD_PROC_LIMIT
  /-- Names are in lower case. -/
  lower : ∀ i ∈ c.procs ++ c.deadProcs, ∀ ch ∈ i.name.toList, ch.isUpper = false

namespace StatsCollector

variable {c : StatsCollector}

theorem wellFormed_new : new.WellFormed := ⟨distinct_new, Nat.zero_le _, nofun⟩

theorem WellFormed.applyEvent (h : c.WellFormed) (ev : ProcStartEvent) :
    (c.applyEvent ev).WellFormed := by
  refine ⟨distinct_applyEvent h.distinct ev, by rw [deadProcs_applyEvent]; exact h.dead_le, ?_⟩
  intro i hi
  rw [deadProcs_applyEvent] at hi
  rcases List.mem_append.mp hi with hi | hi
  · rcases (mem_procs_applyEvent h.distinct).mp hi with ⟨hi, -⟩ | rfl
    · exact h.lower i (List.mem_append_left _ hi)
    · exact isUpper_makeAsciiLowercase ev.name
  · exact h.lower i (List.mem_append_right _ hi)

theorem WellFormed.collectRows (h : c.WellFormed) (e : Endian) (m : StatsMap)
    (out : List StatsRow) : (c.collectRows e m out).1.WellFormed := by
  refine ⟨distinct_collectRows h.distinct out, length_deadProcs_collectRows h.dead_le out, ?_⟩
  intro i hi
  rcases List.mem_append.mp hi with hi | hi
  · obtain ⟨j, hj, s, -, rfl⟩ := (mem_procs_collectRows out).mp hi
    exact h.lower j (List.mem_append_left _ hj)
  · rw [deadProcs_collectRows h.dead_le] at hi
    rcases List.mem_append.mp (List.mem_of_mem_drop hi) with hi | hi
    · exact h.lower i (List.mem_append_right _ hi)
    · exact h.lower i (List.mem_append_left _ (mem_departed.mp hi).1)

theorem WellFormed.reset (h : c.WellFormed) : c.reset.WellFormed := by
  refine ⟨distinct_reset h.distinct, Nat.zero_le _, ?_⟩
  intro i hi
  rw [StatsCollector.reset, List.append_nil] at hi
  obtain ⟨j, hj, rfl⟩ := List.mem_map.mp hi
  exact h.lower j (List.mem_append_left _ hj)

/-- An operation keeps a collector well-formed. -/
theorem WellFormed.run (h : c.WellFormed) (op : Op) : (op.run e c).1.WellFormed := by
  cases op with
  | applyEvent event => exact h.applyEvent event
  | collectRows statsMap => exact h.collectRows e statsMap []
  | reset => exact h.reset

theorem WellFormed.after (h : c.WellFormed) (ops : List Op) : (after e c ops).WellFormed := by
  induction ops generalizing c with
  | nil => exact h
  | cons op ops ih => exact ih (h.run op)

end StatsCollector

/-- **The representation invariant of the collector**: after any run of start events, ticks over
any stats maps, and resets, it is well-formed, and the rows of a tick have distinct pids, which
are those of the processes that stay tracked and had an entry. -/
theorem collector_wellFormed (e : Endian) (ops : List Op) :
    (after e .new ops).WellFormed ∧ ∀ (m : StatsMap) (out : List StatsRow),
      (((after e .new ops).collectRows e m out).2.map StatsRow.pid).Nodup ∧
      ((after e .new ops).collectRows e m out).2.map StatsRow.pid =
        ((after e .new ops).collectRows e m out).1.procs.map ProcInfo.pid ∧
      ∀ r ∈ ((after e .new ops).collectRows e m out).2,
        (m.lookupPercpu (pidKey e r.pid)).isSome := by
  have h : (after e .new ops).WellFormed := StatsCollector.wellFormed_new.after ops
  refine ⟨h, fun m out => ⟨StatsCollector.nodup_rows_collectRows h.distinct out, ?_, ?_⟩⟩
  · rw [StatsCollector.collectRows_eq]
    exact (StatsCollector.map_filterMap_alive ProcInfo.row StatsRow.pid (fun _ _ => rfl) _).trans
      (StatsCollector.map_filterMap_alive ProcInfo.sampled ProcInfo.pid (fun _ _ => rfl) _).symm
  · intro r hr
    obtain ⟨j, -, s, hs, rfl⟩ := (StatsCollector.mem_rows_collectRows out).mp hr
    rw [mergeValuesForPid] at hs
    exact Option.isSome_of_eq_some (Option.map_eq_some_iff.mp hs).choose_spec.1

end Procnet
