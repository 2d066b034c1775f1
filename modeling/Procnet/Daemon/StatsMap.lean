import Procnet.Core.Partition

/-!
# The daemon's stats map

`MapMutWrapper` adapts the kernel's map to the `StatsMap` of the collector. A lookup of the
map can fail, and the adapter drops the error: to the collector, it is as if there were no
entry, and a process without an entry is dead. Its start event does not come again as long as
its entry exists, so that it stays away when lookups succeed again.

`failed_lookup_iff` says when a tick takes no process with an entry for dead
(`KeepsPresent`): exactly when no lookup of a tracked process with an entry fails.
-/

namespace Procnet

open Lib

variable {ε : Type}

/-- A per-CPU map of the kernel, whose lookups can fail. -/
structure MapMut (ε : Type) where
  lookupPercpu : List UInt8 → Except ε (Option (List (List UInt8)))

/-- The map as the collector sees it. -/
def MapMutWrapper (map : MapMut ε) : StatsMap where
  lookupPercpu key := (map.lookupPercpu key).toOption.join

/-- The map with the given entries, whose lookups of some pids fail. -/
def MapMut.faulty (e : Endian) (entries : UInt32 → Option (List ProcStats))
    (fault : UInt32 → Option ε) : MapMut ε where
  lookupPercpu key :=
    match fault (UInt32.ofNat (e.value key)) with
    | some err => .error err
    | none => .ok ((StatsMap.ofValues e entries).lookupPercpu key)

variable {e : Endian} {entries : UInt32 → Option (List ProcStats)} {fault : UInt32 → Option ε}
  {c : StatsCollector}

/-- **A failed lookup is the lookup of a missing entry.** -/
theorem mergeValuesForPid_faulty (pid : UInt32) :
    mergeValuesForPid e (MapMutWrapper (.faulty e entries fault)) pid =
      if fault pid = none then (entries pid).map mergeProcStats else none := by
  have hpid : UInt32.ofNat (e.value (pidKey e pid)) = pid := by
    rw [pidKey, e.value_bytes, Nat.mod_eq_of_lt (by exact pid.toNat_lt), UInt32.ofNat_toNat]
  rw [← mergeValuesForPid_ofValues e entries pid]
  simp only [mergeValuesForPid, MapMutWrapper, MapMut.faulty, hpid]
  cases fault pid with
  | none => rfl
  | some err => rfl

/-- **A tick that takes no process with an entry for dead**: what it moves to the dead list has
no entry; a tracked process with an entry stays, resampled, or as it is if its lookup fails;
and it has a row as soon as a lookup finds it again. -/
structure KeepsPresent (e : Endian) (entries : UInt32 → Option (List ProcStats))
    (fault : UInt32 → Option ε) (c c' : StatsCollector) : Prop where
  dead : ∀ i ∈ c'.deadProcs, i ∈ c.deadProcs ∨ (i ∈ c.procs ∧ entries i.pid = none)
  kept : ∀ i ∈ c.procs, ∀ values, entries i.pid = some values →
    (if fault i.pid = none then i.sampled (mergeProcStats values) else i) ∈ c'.procs
  row : ∀ i ∈ c.procs, entries i.pid ≠ none → ∀ m out, (mergeValuesForPid e m i.pid).isSome →
    ∃ r ∈ (c'.collectRows e m out).2, r.pid = i.pid ∧ r.name = i.name

/-- What stays tracked under its name has a row when a lookup finds it. -/
theorem exists_row_of_mem {i j : ProcInfo} {m : StatsMap} (hj : j ∈ c.procs) (hpid : j.pid = i.pid)
    (hname : j.name = i.name) (hfound : (mergeValuesForPid e m i.pid).isSome)
    (out : List StatsRow) : ∃ r ∈ (c.collectRows e m out).2, r.pid = i.pid ∧ r.name = i.name := by
  obtain ⟨new, hnew⟩ := Option.isSome_iff_exists.mp hfound
  rw [← hpid] at hnew
  exact ⟨j.row new, (StatsCollector.mem_rows_collectRows out).mpr ⟨j, hj, new, hnew, rfl⟩, hpid,
    hname⟩

/-- **When a failed lookup is no death**: whatever is tracked, whatever the map holds and
whichever lookups fail, exactly when none of a tracked process with an entry does. -/
theorem failed_lookup_iff (e : Endian) (entries : UInt32 → Option (List ProcStats))
    (fault : UInt32 → Option ε) (c : StatsCollector) (out : List StatsRow) :
    KeepsPresent e entries fault c
        (c.collectRows e (MapMutWrapper (.faulty e entries fault)) out).1 ↔
      ∀ i ∈ c.procs, entries i.pid ≠ none → fault i.pid = none := by
  constructor
  · intro h i hi hentry
    obtain ⟨values, hvalues⟩ := Option.ne_none_iff_exists'.mp hentry
    have hkept := h.kept i hi values hvalues
    obtain ⟨j, -, new, hnew, hj⟩ := (StatsCollector.mem_procs_collectRows out).mp hkept
    by_contra hfault
    rw [if_neg hfault] at hj
    have hpid : j.pid = i.pid := hj ▸ rfl
    rw [hpid, mergeValuesForPid_faulty, if_neg hfault] at hnew
    exact absurd hnew nofun
  · intro h
    have hkept : ∀ i ∈ c.procs, ∀ values, entries i.pid = some values →
        i.sampled (mergeProcStats values) ∈
          (c.collectRows e (MapMutWrapper (.faulty e entries fault)) out).1.procs := by
      intro i hi values hvalues
      have hfault := h i hi (by rw [hvalues]; nofun)
      refine (StatsCollector.mem_procs_collectRows out).mpr ⟨i, hi, mergeProcStats values, ?_, rfl⟩
      rw [mergeValuesForPid_faulty, if_pos hfault, hvalues, Option.map_some]
    constructor
    · intro i hi
      rw [StatsCollector.collectRows_eq] at hi
      rcases mem_of_mem_foldl_pushRecent hi with hi | hi
      · exact Or.inl hi
      · -- A process that a tick finds gone has no entry, since its lookup has not failed.
        obtain ⟨hmem, hnone⟩ := StatsCollector.mem_departed.mp hi
        refine Or.inr ⟨hmem, ?_⟩
        by_contra hentry
        rw [mergeValuesForPid_faulty, if_pos (h i hmem hentry)] at hnone
        exact hentry (Option.map_eq_none_iff.mp hnone)
    · intro i hi values hvalues
      rw [if_pos (h i hi (by rw [hvalues]; nofun))]
      exact hkept i hi values hvalues
    · intro i hi hentry m out' hfound
      obtain ⟨values, hvalues⟩ := Option.ne_none_iff_exists'.mp hentry
      exact exists_row_of_mem (hkept i hi values hvalues) rfl rfl hfound out'

/-- A process with an entry whose lookup fails once is dead from then on: it is not tracked any
more, and has no row when lookups succeed again. -/
theorem failed_lookup_buries :
    ∃ (c : StatsCollector) (entries : UInt32 → Option (List ProcStats))
      (fault : UInt32 → Option Unit),
      (∀ i ∈ c.procs, entries i.pid ≠ none) ∧
      let c' := (c.collectRows .little (MapMutWrapper (.faulty .little entries fault)) []).1
      c'.deadProcs = c.procs ∧ c'.procs = [] ∧
      (c'.collectRows .little (.ofValues .little entries) []).2 = [] ∧
      ¬ KeepsPresent .little entries fault c c' := by
  refine ⟨⟨[⟨7, "curl", ⟨100, 0⟩, default⟩], []⟩, fun _ => some [default], fun _ => some (),
    nofun, ?_⟩
  have htick : (StatsCollector.collectRows .little ⟨[⟨7, "curl", ⟨100, 0⟩, default⟩], []⟩
      (MapMutWrapper (.faulty .little (fun _ => some [default]) fun _ => some ())) []).1 =
        ⟨[], [⟨7, "curl", ⟨100, 0⟩, default⟩]⟩ := by decide +kernel
  simp only [htick]
  refine ⟨trivial, trivial, by decide +kernel, fun h => ?_⟩
  exact absurd (h.kept _ (List.mem_singleton_self _) _ rfl) nofun

end Procnet
