import Procnet.Bpf.Kernel
import Procnet.Core.Merge
import Mathlib.Algebra.BigOperators.Fin
import Mathlib.Algebra.Order.BigOperators.Group.Finset

/-!
# What the counters of an entry add up to

Every map operation that adds bytes to an entry is a `Write`: an update through a pointer
to it, or the insertion that creates it. Over a run, the writes to an entry on a CPU are its
ledger, and the counters of that CPU hold their sum, modulo the size of a counter
(`Kernel.Ledger`). Merged over the CPUs, they are what the daemon sees (`counted`), which is
the sum of all writes to the entry as long as no counter overflows (`counted_eq_added`).
-/

namespace Procnet

open Lib

variable {n : ℕ}

/-- The bytes of a call in a protocol and a direction. -/
def Call.amount (c : Call) (p : Protocol) (d : Dir) : ℕ :=
  if c.protocol = p then
    match d with
    | .sent => c.sent.toNat
    | .recv => c.recv.toNat
  else 0

/-- A call adds to an entry, on a CPU. -/
structure Write (n : ℕ) where
  entry : ℕ
  cpu : Fin n
  call : Call
  deriving DecidableEq, Repr

/-- What some writes add to an entry on a CPU. -/
def addedOn (ws : List (Write n)) (id : ℕ) (p : Protocol) (d : Dir) (cpu : Fin n) : ℕ :=
  (ws.map fun w => if w.entry = id ∧ w.cpu = cpu then w.call.amount p d else 0).sum

/-- What some writes add to an entry. -/
def added (ws : List (Write n)) (id : ℕ) (p : Protocol) (d : Dir) : ℕ :=
  (List.ofFn (addedOn ws id p d)).sum

/-- What the merged counter of an entry shows of some writes: each CPU counts modulo the size
of its counter, and the sum stops at the greatest value. -/
def counted (ws : List (Write n)) (id : ℕ) (p : Protocol) (d : Dir) : ℕ :=
  min u64Max (List.ofFn fun cpu => addedOn ws id p d cpu % 2 ^ 64).sum

theorem addedOn_append (ws ws' : List (Write n)) (id : ℕ) (p : Protocol) (d : Dir) (cpu : Fin n) :
    addedOn (ws ++ ws') id p d cpu = addedOn ws id p d cpu + addedOn ws' id p d cpu := by
  rw [addedOn, List.map_append, List.sum_append]
  rfl

theorem addedOn_eq_zero {ws : List (Write n)} {id : ℕ} (h : ∀ w ∈ ws, w.entry ≠ id)
    (p : Protocol) (d : Dir) (cpu : Fin n) : addedOn ws id p d cpu = 0 := by
  refine List.sum_eq_zero fun a ha => ?_
  obtain ⟨w, hw, rfl⟩ := List.mem_map.mp ha
  exact if_neg fun heq => h w hw heq.1

/-- Without writes nothing is counted. -/
@[simp] theorem counted_nil (id : ℕ) (p : Protocol) (d : Dir) :
    counted ([] : List (Write n)) id p d = 0 := by
  have hzero : ∀ cpu : Fin n, addedOn ([] : List (Write n)) id p d cpu = 0 :=
    addedOn_eq_zero (by simp) p d
  simp [counted, hzero]

theorem added_append (ws ws' : List (Write n)) (id : ℕ) (p : Protocol) (d : Dir) :
    added (ws ++ ws') id p d = added ws id p d + added ws' id p d := by
  simp only [added, List.sum_ofFn, addedOn_append, Finset.sum_add_distrib]

/-- **As long as the sum of all writes fits a counter, it is what the daemon sees.** -/
theorem counted_eq_added {ws : List (Write n)} {id : ℕ} {p : Protocol} {d : Dir}
    (h : added ws id p d < 2 ^ 64) : counted ws id p d = added ws id p d := by
  have hcpu : ∀ cpu, addedOn ws id p d cpu % 2 ^ 64 = addedOn ws id p d cpu := by
    intro cpu
    refine Nat.mod_eq_of_lt (lt_of_le_of_lt ?_ h)
    rw [added, List.sum_ofFn]
    exact Finset.single_le_sum (fun _ _ => Nat.zero_le _) (Finset.mem_univ cpu)
  rw [counted, funext hcpu]
  exact min_eq_right (Nat.le_pred_of_lt h)

/-- An update adds the bytes of the call, and wraps around. -/
theorem toNat_counter_updateStats (stats : ProcStats) (c : Call) (p : Protocol) (d : Dir) :
    ((updateStats stats c.protocol c.sent c.recv c.addr).counter p d).toNat =
      ((stats.counter p d).toNat + c.amount p d) % 2 ^ 64 := by
  have hlt := (stats.counter p d).toNat_lt
  cases hprotocol : c.protocol <;> cases p <;> cases d <;>
    simp_all [updateStats, ProcStats.counter, ProcStats.proto, StatsBytes.dir, Call.amount,
      Nat.mod_eq_of_lt]

namespace Kernel

variable {k k' : Kernel n} {p : Protocol} {d : Dir}

/-- What a step adds to an entry, if it does. -/
def writes (k : Kernel n) : KernelStep n → Option (Write n)
  | .run cpu => (k.calls cpu).bind fun c =>
    match c.pc with
    | .update id => if k.entryId c.thread.tgid = some id then some ⟨id, cpu, c⟩ else none
    | .insert =>
      if k.stats.lookup c.thread.tgid = none ∧ ¬ k.stats.full then some ⟨k.nextId, cpu, c⟩
      else none
    | .lookup | .reserve _ | .submit _ | .lookupAgain => none
  | .spawn _ | .enter .. | .exit _ => none

/-- What the next map operation of a call does to `STATS`. -/
theorem stats_accountBytes (k : Kernel n) (cpu : Fin n) (c : Call) :
    (k.accountBytes cpu c).stats =
      match c.pc with
      | .update id => k.stats.modify c.thread.tgid fun entry =>
          if entry.id = id then entry.update cpu c else entry
      | .insert => (k.stats.insertNew c.thread.tgid (.create k.nextId cpu
          (updateStats default c.protocol c.sent c.recv c.addr))).getD k.stats
      | .lookup | .reserve _ | .submit _ | .lookupAgain => k.stats := by
  simp only [accountBytes]
  cases c.pc with
  | lookup => cases k.stats.lookup c.thread.tgid <;> rfl
  | update id => rfl
  | insert =>
    simp only
    cases k.stats.insertNew c.thread.tgid (.create k.nextId cpu
      (updateStats default c.protocol c.sent c.recv c.addr)) <;> rfl
  | reserve id =>
    simp only
    split_ifs <;> rfl
  | submit id => rfl
  | lookupAgain => cases k.stats.lookup c.thread.tgid <;> rfl

theorem writes_run {cpu : Fin n} {c : Call} (hc : k.calls cpu = some c) :
    k.writes (.run cpu) =
      match c.pc with
      | .update id => if k.entryId c.thread.tgid = some id then some ⟨id, cpu, c⟩ else none
      | .insert =>
        if k.stats.lookup c.thread.tgid = none ∧ ¬ k.stats.full then some ⟨k.nextId, cpu, c⟩
        else none
      | .lookup | .reserve _ | .submit _ | .lookupAgain => none := by
  rw [writes, hc]
  rfl

/-- **What a step does to the values of an entry**: they stay as they are, are added to, or
are those of a new entry. -/
theorem lookup_step {l : KernelStep n} (h : k.step l = some k') {tgid : UInt32} {entry' : Entry n}
    (hentry : k'.stats.lookup tgid = some entry') :
    (k.stats.lookup tgid = some entry' ∧ ∀ w ∈ k.writes l, w.call.thread.tgid ≠ tgid) ∨
    (∃ entry cpu c, k.stats.lookup tgid = some entry ∧ entry' = entry.update cpu c ∧
      k.writes l = some ⟨entry.id, cpu, c⟩ ∧ c.thread.tgid = tgid) ∨
    ∃ cpu c, k.stats.lookup tgid = none ∧ k.writes l = some ⟨k.nextId, cpu, c⟩ ∧
      c.thread.tgid = tgid ∧
      entry' = .create k.nextId cpu (updateStats default c.protocol c.sent c.recv c.addr) := by
  have hno : ∀ w ∈ (none : Option (Write n)), w.call.thread.tgid ≠ tgid := by simp
  rcases step_cases h with ⟨t, rfl, -, rfl⟩ |
    ⟨cpu, t, addr, sent, recv, protocol, rfl, -, -, -, rfl⟩ |
    ⟨cpu, c, rfl, hc, rfl⟩ | ⟨t, rfl, -, -, rfl⟩
  · exact Or.inl ⟨hentry, hno⟩
  · exact Or.inl ⟨hentry, hno⟩
  · rw [stats_accountBytes] at hentry
    rw [writes_run hc]
    cases hpc : c.pc with
    | update id =>
      simp only [hpc, BoundedMap.lookup_modify] at hentry ⊢
      by_cases htgid : tgid = c.thread.tgid
      · -- The value is written to if the entry is still the one that was looked up.
        subst htgid
        rw [if_pos rfl] at hentry
        obtain ⟨entry, hlookup, rfl⟩ := Option.map_eq_some_iff.mp hentry
        have hid : k.entryId c.thread.tgid = some entry.id := by rw [entryId, hlookup]; rfl
        by_cases hsame : entry.id = id
        · refine Or.inr (Or.inl ⟨entry, cpu, c, hlookup, if_pos hsame, ?_⟩)
          rw [if_pos (hid.trans (congrArg some hsame)), hsame]
          exact ⟨rfl, rfl⟩
        · rw [if_neg hsame, if_neg fun heq => hsame (Option.some.inj (hid.symm.trans heq))]
          exact Or.inl ⟨hlookup, hno⟩
      · rw [if_neg htgid] at hentry
        refine Or.inl ⟨hentry, fun w hw => ?_⟩
        obtain ⟨-, hw⟩ := Option.ite_none_right_eq_some.mp hw
        obtain rfl := Option.some.inj hw
        exact Ne.symm htgid
    | insert =>
      simp only [hpc] at hentry ⊢
      cases hins : k.stats.insertNew c.thread.tgid (.create k.nextId cpu
          (updateStats default c.protocol c.sent c.recv c.addr)) with
      | some stats =>
        obtain ⟨hnone, hfull, hlookup⟩ := BoundedMap.insertNew_eq_some hins
        rw [hins, Option.getD_some, hlookup tgid] at hentry
        rw [if_pos ⟨hnone, hfull⟩]
        by_cases htgid : tgid = c.thread.tgid
        · rw [if_pos htgid] at hentry
          exact Or.inr (Or.inr
            ⟨cpu, c, htgid ▸ hnone, rfl, htgid.symm, (Option.some.inj hentry).symm⟩)
        · rw [if_neg htgid] at hentry
          refine Or.inl ⟨hentry, fun w hw => ?_⟩
          obtain rfl := Option.some.inj hw
          exact Ne.symm htgid
      | none =>
        rw [hins, Option.getD_none] at hentry
        have hnot : ¬ (k.stats.lookup c.thread.tgid = none ∧ ¬ k.stats.full) := by
          rw [← BoundedMap.insertNew_isSome (v := Entry.create k.nextId cpu
            (updateStats default c.protocol c.sent c.recv c.addr)), hins]
          exact Bool.false_ne_true
        rw [if_neg hnot]
        exact Or.inl ⟨hentry, hno⟩
    | lookup => exact Or.inl ⟨by simpa only [hpc] using hentry, hno⟩
    | reserve id => exact Or.inl ⟨by simpa only [hpc] using hentry, hno⟩
    | submit id => exact Or.inl ⟨by simpa only [hpc] using hentry, hno⟩
    | lookupAgain => exact Or.inl ⟨by simpa only [hpc] using hentry, hno⟩
  · refine Or.inl ⟨?_, hno⟩
    rw [procnetSchedProcessExit] at hentry
    split_ifs at hentry with hpid
    · exact hentry
    · simp only [BoundedMap.lookup_erase] at hentry
      split_ifs at hentry
      exact hentry

/-- **A write goes to the entry that the process has**, or to a new one. -/
theorem entry_of_writes {l : KernelStep n} (h : k.step l = some k') {w : Write n}
    (hw : w ∈ k.writes l) :
    k'.entryId w.call.thread.tgid = some w.entry ∧
      (k.entryId w.call.thread.tgid = some w.entry ∨
        k.Inserts l w.call.thread.tgid ∧ w.entry = k.nextId) := by
  cases l with
  | spawn t => cases hw
  | enter cpu t addr sent recv protocol => cases hw
  | exit t => cases hw
  | run cpu =>
    obtain ⟨c, hc, hw⟩ := Option.bind_eq_some_iff.mp hw
    cases hpc : c.pc with
    | update id =>
      simp only [hpc] at hw
      obtain ⟨hid, hw⟩ := Option.ite_none_right_eq_some.mp hw
      obtain rfl := Option.some.inj hw
      refine ⟨?_, Or.inl hid⟩
      rcases entryId_step h c.thread.tgid with ⟨⟨cpu', c', hc', hl, hpc', -⟩, -⟩ | ⟨hl, -⟩ |
        ⟨-, -, hsame⟩
      · obtain rfl := KernelStep.run.inj hl
        obtain rfl := Option.some.inj (hc.symm.trans hc')
        exact absurd (hpc.symm.trans hpc') nofun
      · cases hl
      · exact hsame.trans hid
    | insert =>
      simp only [hpc] at hw
      obtain ⟨⟨hnone, hfull⟩, hw⟩ := Option.ite_none_right_eq_some.mp hw
      obtain rfl := Option.some.inj hw
      have hins : k.Inserts (.run cpu) c.thread.tgid := ⟨cpu, c, hc, rfl, hpc, rfl, hnone, hfull⟩
      refine ⟨?_, Or.inr ⟨hins, rfl⟩⟩
      rcases entryId_step h c.thread.tgid with ⟨-, -, hnew, -⟩ | ⟨hl, -⟩ | ⟨hnot, -⟩
      · exact hnew
      · cases hl
      · exact absurd hins hnot
    | lookup => simp [hpc] at hw
    | reserve id => simp [hpc] at hw
    | submit id => simp [hpc] at hw
    | lookupAgain => simp [hpc] at hw

/-- An insertion writes to the new entry. -/
theorem exists_writes_of_inserts {l : KernelStep n} {tgid : UInt32} (hins : k.Inserts l tgid) :
    ∃ w ∈ k.writes l, w.entry = k.nextId ∧ w.call.thread.tgid = tgid := by
  obtain ⟨cpu, c, hc, rfl, hpc, rfl, hnone, hfull⟩ := hins
  refine ⟨⟨k.nextId, cpu, c⟩, ?_, rfl, rfl⟩
  rw [writes_run hc, hpc]
  exact if_pos ⟨hnone, hfull⟩

/-- **The ledger**: what the entries of a state hold of the writes that led to it. -/
structure Ledger (k : Kernel n) (ws : List (Write n)) : Prop where
  lt_nextId : ∀ tgid id, k.entryId tgid = some id → id < k.nextId
  /-- No two entries have the same number. -/
  inj : ∀ tgid tgid' id, k.entryId tgid = some id → k.entryId tgid' = some id → tgid = tgid'
  fresh : ∀ w ∈ ws, w.entry < k.nextId
  value : ∀ tgid entry, k.stats.lookup tgid = some entry → ∀ cpu p d,
    ((entry.values cpu).counter p d).toNat = addedOn ws entry.id p d cpu % 2 ^ 64

theorem ledger_boot : (boot : Kernel n).Ledger [] := by
  constructor <;> simp [boot, entryId]

theorem entryId_eq_some {tgid : UInt32} {id : ℕ} :
    k.entryId tgid = some id ↔ ∃ entry, k.stats.lookup tgid = some entry ∧ entry.id = id :=
  Option.map_eq_some_iff

theorem addedOn_singleton (w : Write n) (id : ℕ) (cpu : Fin n) :
    addedOn [w] id p d cpu = if w.entry = id ∧ w.cpu = cpu then w.call.amount p d else 0 := by
  simp [addedOn]

theorem Ledger.lt_nextId_step {ws : List (Write n)} (hk : k.Ledger ws) {l : KernelStep n}
    (h : k.step l = some k') {tgid : UInt32} {id : ℕ} (hid : k'.entryId tgid = some id) :
    (k.Inserts l tgid ∧ id = k.nextId ∧ k'.nextId = k.nextId + 1) ∨
      (k.entryId tgid = some id ∧ id < k.nextId) := by
  rcases entryId_step h tgid with ⟨hins, -, hnew, hnext, -⟩ | ⟨-, -, hnone⟩ | ⟨-, -, hsame⟩
  · exact Or.inl ⟨hins, Option.some.inj (hid.symm.trans hnew), hnext⟩
  · rw [hnone] at hid
    cases hid
  · exact Or.inr ⟨hsame ▸ hid, hk.lt_nextId tgid id (hsame ▸ hid)⟩

/-- Different processes have different entries after a step. -/
theorem Ledger.inj_step {ws : List (Write n)} (hk : k.Ledger ws) {l : KernelStep n}
    (h : k.step l = some k') {tgid tgid' : UInt32} {id : ℕ} (hid : k'.entryId tgid = some id)
    (hid' : k'.entryId tgid' = some id) : tgid = tgid' := by
  rcases hk.lt_nextId_step h hid with ⟨⟨cpu, c, hc, rfl, -, rfl, -⟩, hnew, -⟩ | ⟨hold, hlt⟩ <;>
    rcases hk.lt_nextId_step h hid' with ⟨⟨cpu', c', hc', hl, -, rfl, -⟩, hnew', -⟩ | ⟨hold', hlt'⟩
  · obtain rfl := KernelStep.run.inj hl
    obtain rfl := Option.some.inj (hc.symm.trans hc')
    rfl
  · omega
  · omega
  · exact hk.inj tgid tgid' id hold hold'

/-- The values of an entry go on with what a step writes to it. -/
theorem Ledger.value_step {ws : List (Write n)} (hk : k.Ledger ws) {l : KernelStep n}
    (h : k.step l = some k') {tgid : UInt32} {entry' : Entry n}
    (hentry : k'.stats.lookup tgid = some entry') (cpu : Fin n) (p : Protocol) (d : Dir) :
    ((entry'.values cpu).counter p d).toNat =
      addedOn (ws ++ (k.writes l).toList) entry'.id p d cpu % 2 ^ 64 := by
  rw [addedOn_append]
  rcases lookup_step h hentry with ⟨hold, hother⟩ | ⟨entry, cpu', c, hold, rfl, hw, -⟩ |
    ⟨cpu', c, hnone, hw, -, rfl⟩
  · have hzero : addedOn (k.writes l).toList entry'.id p d cpu = 0 := by
      refine addedOn_eq_zero (fun w hw heq => hother w (Option.mem_toList.mp hw) ?_) p d cpu
      have hid : k'.entryId tgid = some entry'.id := by rw [entryId, hentry]; rfl
      have hwid := (entry_of_writes h (Option.mem_toList.mp hw)).1
      exact hk.inj_step h (heq ▸ hwid) hid
    rw [hzero, hk.value tgid entry' hold, Nat.add_zero]
  · rw [hw, Option.toList_some, addedOn_singleton]
    have hvalue := hk.value tgid entry hold cpu p d
    by_cases hcpu : cpu' = cpu
    · subst hcpu
      simp only [Entry.update, Function.update_self, toNat_counter_updateStats, hvalue, true_and,
        if_true]
      rw [Nat.mod_add_mod]
    · simpa [Entry.update, Ne.symm hcpu, hcpu] using hvalue
  · have hzero : addedOn ws k.nextId p d cpu = 0 :=
      addedOn_eq_zero (fun w hw => Nat.ne_of_lt (hk.fresh w hw)) p d cpu
    have hdefault : (default : ProcStats).counter p d = 0 := by cases p <;> cases d <;> rfl
    rw [hw, Option.toList_some, addedOn_singleton, Entry.id_create, hzero, Nat.zero_add]
    by_cases hcpu : cpu' = cpu
    · subst hcpu
      simp only [Entry.create, Function.update_self, toNat_counter_updateStats, hdefault, true_and,
        if_true, UInt64.toNat_zero, Nat.zero_add]
    · simp [Entry.create, Ne.symm hcpu, hcpu, hdefault]

/-- **The step lemma**: the ledger goes on with what a step writes. -/
theorem Ledger.step {ws : List (Write n)} (hk : k.Ledger ws) {l : KernelStep n}
    (h : k.step l = some k') : k'.Ledger (ws ++ (k.writes l).toList) := by
  have hnext := nextId_le_step h
  constructor
  · intro tgid id hid
    rcases hk.lt_nextId_step h hid with ⟨-, rfl, hlt⟩ | ⟨-, hlt⟩
    · omega
    · omega
  · intro tgid tgid' id hid hid'
    exact hk.inj_step h hid hid'
  · intro w hw
    rcases List.mem_append.mp hw with hold | hnew
    · exact Nat.lt_of_lt_of_le (hk.fresh w hold) hnext
    · rcases (entry_of_writes h (Option.mem_toList.mp hnew)).2 with hid | ⟨hins, hid⟩
      · exact Nat.lt_of_lt_of_le (hk.lt_nextId _ _ hid) hnext
      · rw [nextId_of_inserts h hins, hid]
        exact Nat.lt_succ_self _
  · intro tgid entry' hentry cpu p d
    exact hk.value_step h hentry cpu p d

/-- **What the daemon sees of an entry** is what the ledger counts. -/
theorem Ledger.counter_merged {ws : List (Write n)} (hk : k.Ledger ws) {tgid : UInt32}
    {entry : Entry n} (hentry : k.stats.lookup tgid = some entry) (p : Protocol) (d : Dir) :
    ((mergeProcStats (List.ofFn entry.values)).counter p d).toNat = counted ws entry.id p d := by
  rw [toNat_counter_mergeProcStats, exactSum, counted, List.map_ofFn]
  exact congrArg (fun f => min u64Max (List.ofFn f).sum)
    (funext fun cpu => hk.value tgid entry hentry cpu p d)

end Kernel

end Procnet
