import Procnet.Core.Stats

/-!
# What the values of all CPUs are merged into

`merge_values_for_pid` of `procnet-core/src/stats.rs` adds the raw values of a process up, one CPU
after the other: it skips those that have the wrong size, stops the counters at the greatest 64-bit
integer, and takes the first address that is not all zero, for each protocol by itself.

`mergeReference` says what comes out without saying how: the clamped sum of the well-formed values
and the address of the first of them that has one. `merge_eq_reference` is that the loop computes
it; so the counters do not depend on the order of the CPUs and never decrease when the counter of a
CPU grows, and an address is that of a single CPU.
-/

namespace Procnet

open Lib

variable {e : Endian} {p : Protocol} {d : Dir}

/-! ### The reference -/

/-- The values that have the right size. -/
def wellFormed (e : Endian) (values : List (List UInt8)) : List ProcStats :=
  values.filterMap (procStatsFromBytes e)

/-- The exact sum of one counter. -/
def exactSum (p : Protocol) (d : Dir) (stats : List ProcStats) : ℕ :=
  (stats.map fun s => (s.counter p d).toNat).sum

/-- The address of the first value that has one, or else none. -/
def firstAddr (p : Protocol) (stats : List ProcStats) : StatsAddr :=
  ((stats.map fun s => (s.proto p).addr).find? (· ≠ default)).getD default

/-- What the values add up to, for one protocol. -/
def protocolReference (p : Protocol) (stats : List ProcStats) : ProtocolStats where
  bytes := ⟨UInt64.ofNat (min u64Max (exactSum p .sent stats)),
    UInt64.ofNat (min u64Max (exactSum p .recv stats))⟩
  addr := firstAddr p stats

/-- **What the values of all CPUs amount to.** -/
def mergeReference (e : Endian) (values : List (List UInt8)) : ProcStats :=
  ⟨protocolReference .tcp (wellFormed e values), protocolReference .udp (wellFormed e values)⟩

/-! ### The counters -/

theorem counter_foldl_merge (merged : ProcStats) (stats : List ProcStats) :
    (stats.foldl (fun merged value => ⟨mergeStats merged.tcp value.tcp,
      mergeStats merged.udp value.udp⟩) merged).counter p d =
      (stats.map fun s => s.counter p d).foldl satAdd (merged.counter p d) := by
  induction stats generalizing merged with
  | nil => rfl
  | cons s stats ih =>
    rw [List.foldl_cons, ih, List.map_cons, List.foldl_cons]
    cases p <;> simp [ProcStats.counter, ProcStats.proto, mergeStats]

/-- **The merged counter is the sum over the CPUs**, clamped. -/
theorem toNat_counter_mergeProcStats (stats : List ProcStats) (p : Protocol) (d : Dir) :
    ((mergeProcStats stats).counter p d).toNat = min u64Max (exactSum p d stats) := by
  have hzero : (default : ProcStats).counter p d = 0 := by cases p <;> cases d <;> rfl
  rw [mergeProcStats, counter_foldl_merge, toNat_foldl_satAdd, hzero, UInt64.toNat_zero,
    Nat.zero_add, List.map_map]
  rfl

theorem toNat_counter_mergeReference (values : List (List UInt8)) :
    ((mergeReference e values).counter p d).toNat =
      min u64Max (exactSum p d (wellFormed e values)) := by
  have hclamp : ∀ n, (UInt64.ofNat (min u64Max n)).toNat = min u64Max n := fun n =>
    UInt64.toNat_ofNat_of_lt' (lt_of_le_of_lt (min_le_left _ _) (by decide))
  cases p <;> cases d <;> exact hclamp _

theorem exactSum_perm {stats stats' : List ProcStats} (h : stats.Perm stats') :
    exactSum p d stats = exactSum p d stats' :=
  (h.map _).sum_eq

/-- The counter in the raw value of one CPU; a value of the wrong size counts
for nothing. -/
def valueCounter (e : Endian) (p : Protocol) (d : Dir) (value : List UInt8) : UInt64 :=
  ((procStatsFromBytes e value).map fun s => s.counter p d).getD 0

theorem exactSum_wellFormed (values : List (List UInt8)) :
    exactSum p d (wellFormed e values) =
      (values.map fun v => (valueCounter e p d v).toNat).sum := by
  unfold wellFormed exactSum
  induction values with
  | nil => rfl
  | cons v values ih =>
    rw [List.map_cons, List.sum_cons, ← ih, List.filterMap_cons, valueCounter]
    cases procStatsFromBytes e v with
    | none => exact (Nat.zero_add _).symm
    | some s => rfl

/-- Where no CPU counts down, neither does the sum. -/
theorem exactSum_mono {values values' : List (List UInt8)}
    (h : List.Forall₂ (fun v v' => valueCounter e p d v ≤ valueCounter e p d v') values values') :
    exactSum p d (wellFormed e values) ≤ exactSum p d (wellFormed e values') := by
  rw [exactSum_wellFormed, exactSum_wellFormed]
  refine List.Forall₂.sum_le_sum (List.forall₂_map_left_iff.mpr
    (List.forall₂_map_right_iff.mpr (h.imp ?_)))
  rintro v v' hle
  exact UInt64.le_iff_toNat_le.mp hle

/-! ### The addresses -/

theorem addr_foldl_merge (merged : ProcStats) (stats : List ProcStats) :
    ((stats.foldl (fun merged value => ⟨mergeStats merged.tcp value.tcp,
      mergeStats merged.udp value.udp⟩) merged).proto p).addr =
      (stats.map fun s => (s.proto p).addr).foldl (keepFirst default) (merged.proto p).addr := by
  induction stats generalizing merged with
  | nil => rfl
  | cons s stats ih =>
    rw [List.foldl_cons, ih, List.map_cons, List.foldl_cons]
    cases p <;> rfl

/-- **The merged address is the first one**, if there is one. -/
theorem addr_mergeProcStats (stats : List ProcStats) (p : Protocol) :
    ((mergeProcStats stats).proto p).addr = firstAddr p stats := by
  have hunset : ((default : ProcStats).proto p).addr = default := by cases p <;> rfl
  rw [mergeProcStats, addr_foldl_merge, hunset, foldl_keepFirst, if_pos rfl]
  rfl

/-- **Which address is the first one**: all of that of a single value, the ones before it having
none. -/
theorem firstAddr_cases (p : Protocol) (stats : List ProcStats) :
    ((∀ s ∈ stats, (s.proto p).addr = default) ∧ firstAddr p stats = default) ∨
      ∃ before s after, stats = before ++ s :: after ∧
        (∀ s' ∈ before, (s'.proto p).addr = default) ∧ (s.proto p).addr ≠ default ∧
        firstAddr p stats = (s.proto p).addr := by
  induction stats with
  | nil => exact Or.inl ⟨fun s hs => absurd hs List.not_mem_nil, rfl⟩
  | cons s stats ih =>
    -- The first value either has no address and is passed over, or is the one.
    by_cases hs : (s.proto p).addr = default
    · have hskip : firstAddr p (s :: stats) = firstAddr p stats := by
        simp [firstAddr, hs]
      rw [hskip]
      rcases ih with ⟨hnone, hfirst⟩ | ⟨before, t, after, rfl, hbefore, ht, hfirst⟩
      · exact Or.inl ⟨List.forall_mem_cons.mpr ⟨hs, hnone⟩, hfirst⟩
      · exact Or.inr ⟨s :: before, t, after, rfl, List.forall_mem_cons.mpr ⟨hs, hbefore⟩,
          ht, hfirst⟩
    · refine Or.inr ⟨[], s, stats, rfl, fun s' hs' => absurd hs' List.not_mem_nil, hs, ?_⟩
      simp [firstAddr, hs]

/-! ### The loop -/

/-- A value is its four counters and two addresses. -/
theorem ProcStats.eq_of_counter_of_addr {s s' : ProcStats}
    (hcounter : ∀ p d, s.counter p d = s'.counter p d)
    (haddr : ∀ p, (s.proto p).addr = (s'.proto p).addr) : s = s' := by
  obtain ⟨⟨⟨sent, recv⟩, addr⟩, ⟨sent', recv'⟩, addr'⟩ := s
  obtain rfl : sent = _ := hcounter .tcp .sent
  obtain rfl : recv = _ := hcounter .tcp .recv
  obtain rfl : sent' = _ := hcounter .udp .sent
  obtain rfl : recv' = _ := hcounter .udp .recv
  obtain rfl : addr = _ := haddr .tcp
  obtain rfl : addr' = _ := haddr .udp
  rfl

/-- The loop merges the values that have the right size, and skips the others. -/
theorem foldl_mergeValue (values : List (List UInt8)) :
    values.foldl (mergeValue e) default = mergeProcStats (wellFormed e values) := by
  rw [mergeProcStats, wellFormed, List.foldl_filterMap]
  refine congrArg (fun f => List.foldl f default values) ?_
  funext merged value
  unfold mergeValue
  cases procStatsFromBytes e value with
  | none => rfl
  | some s => rfl

/-- **The loop computes the reference.** -/
theorem foldl_mergeValue_eq_reference (values : List (List UInt8)) :
    values.foldl (mergeValue e) default = mergeReference e values := by
  rw [foldl_mergeValue]
  refine ProcStats.eq_of_counter_of_addr (fun p d => ?_) fun p => ?_
  · rw [← UInt64.toNat_inj, toNat_counter_mergeProcStats, toNat_counter_mergeReference]
  · rw [addr_mergeProcStats]
    cases p <;> rfl

/-- **The merge of the values of all CPUs** is its reference, whatever their number and sizes: the
clamped sum of the values that have the right size, which does not depend on their order and does
not decrease when a counter grows; and the first address that is not zero, which is all of that of
one value. -/
theorem merge_eq_reference (e : Endian) :
    (∀ statsMap pid, mergeValuesForPid e statsMap pid =
      (statsMap.lookupPercpu (pidKey e pid)).map (mergeReference e)) ∧
    (∀ value, (procStatsFromBytes e value).isSome ↔ value.length = sizeOfProcStats) ∧
    (∀ values p d, ((mergeReference e values).counter p d).toNat =
      min u64Max (exactSum p d (wellFormed e values))) ∧
    (∀ values values' p d, values.Perm values' →
      (mergeReference e values).counter p d = (mergeReference e values').counter p d) ∧
    (∀ values values' p d,
      List.Forall₂ (fun v v' => valueCounter e p d v ≤ valueCounter e p d v') values values' →
      (mergeReference e values).counter p d ≤ (mergeReference e values').counter p d) ∧
    ∀ values p,
      ((∀ s ∈ wellFormed e values, (s.proto p).addr = default) ∧
        ((mergeReference e values).proto p).addr = default) ∨
      ∃ before s after, wellFormed e values = before ++ s :: after ∧
        (∀ s' ∈ before, (s'.proto p).addr = default) ∧ (s.proto p).addr ≠ default ∧
        ((mergeReference e values).proto p).addr = (s.proto p).addr := by
  refine ⟨fun statsMap pid => ?_, isSome_procStatsFromBytes e,
    fun values p d => toNat_counter_mergeReference values, ?_, ?_, fun values p => ?_⟩
  · exact congrArg (fun f => Option.map f (statsMap.lookupPercpu (pidKey e pid)))
      (funext foldl_mergeValue_eq_reference)
  · intro values values' p d hperm
    have hstats : (wellFormed e values).Perm (wellFormed e values') := hperm.filterMap _
    rw [← UInt64.toNat_inj, toNat_counter_mergeReference, toNat_counter_mergeReference,
      exactSum_perm hstats]
  · intro values values' p d hle
    have hsum := exactSum_mono hle
    rw [UInt64.le_iff_toNat_le, toNat_counter_mergeReference, toNat_counter_mergeReference]
    exact min_le_min_left _ hsum
  · have haddr : ((mergeReference e values).proto p).addr = firstAddr p (wellFormed e values) := by
      cases p <;> rfl
    rw [haddr]
    exact firstAddr_cases p (wellFormed e values)

/-- A value that is cut short counts for nothing, wherever it is. -/
theorem merge_eq_reference_cut :
    (mergeReference .little
        [[1, 2, 3], procStatsToBytes .little ⟨⟨⟨5, 0⟩, default⟩, default⟩]).counter
        .tcp .sent =
      (mergeReference .little
          [procStatsToBytes .little ⟨⟨⟨5, 0⟩, default⟩, default⟩, [1, 2, 3]]).counter
        .tcp .sent :=
  (merge_eq_reference .little).2.2.2.1 _ _ .tcp .sent (List.Perm.swap ..)

end Procnet
