import Procnet.Bpf.Events
import Procnet.Bpf.Ledger
import Mathlib.Algebra.BigOperators.ModEq

/-!
# Calls that race to insert an entry

Calls of `account_bytes` for one process run on several CPUs at once. All of them may find no
entry, but one only inserts it, and the others have to find it in a second lookup. `calls` of a
state tell how far each of them is; what they have found or inserted is the entry that is there
(`Kernel.Tracks`), as long as it is not deleted and `STATS` has room for it (`Kernel.Keeps`).

With this, nothing is lost and nothing is counted twice: on every CPU, what the counter holds
and what is still to be added to it make up what the calls were passed (`Kernel.Settles`), and
the start event of the entry has been attempted once, or is about to be (`Kernel.Attempted`).
`racing_calls_conserve` is what this comes to when the calls have returned.
-/

namespace Procnet

open Lib

variable {n : ℕ}

/-! ### What the calls of a run are passed -/

/-- The bytes for a process that a step passes to a call. -/
def KernelStep.passes (tgid : UInt32) (p : Protocol) (d : Dir) : KernelStep n → ℕ
  | .enter _ t addr sent recv protocol =>
    if t.tgid = tgid then Call.amount ⟨t, addr, sent, recv, protocol, .lookup⟩ p d else 0
  | .spawn _ | .run _ | .exit _ => 0

/-- A step that starts a call for a process. -/
def KernelStep.Calls (tgid : UInt32) : KernelStep n → Prop
  | .enter _ t _ _ _ _ => t.tgid = tgid
  | .spawn _ | .run _ | .exit _ => False

/-- The bytes for a process that the calls of a run are passed. -/
def passed (ls : List (KernelStep n)) (tgid : UInt32) (p : Protocol) (d : Dir) : ℕ :=
  (ls.map (KernelStep.passes tgid p d)).sum

/-- The bytes for a process that a step passes to a call on a CPU. -/
def KernelStep.passesOn (tgid : UInt32) (p : Protocol) (d : Dir) (cpu : Fin n)
    (l : KernelStep n) : ℕ :=
  match l with
  | .enter cpu' _ _ _ _ _ => if cpu' = cpu then l.passes tgid p d else 0
  | .spawn _ | .run _ | .exit _ => 0

/-- The bytes for a process that the calls of a run on a CPU are passed. -/
def passedOn (ls : List (KernelStep n)) (tgid : UInt32) (p : Protocol) (d : Dir) (cpu : Fin n) :
    ℕ :=
  (ls.map (KernelStep.passesOn tgid p d cpu)).sum

theorem passedOn_concat (ls : List (KernelStep n)) (l : KernelStep n) (tgid : UInt32)
    (p : Protocol) (d : Dir) (cpu : Fin n) :
    passedOn (ls ++ [l]) tgid p d cpu = passedOn ls tgid p d cpu + l.passesOn tgid p d cpu := by
  simp [passedOn]

/-- A call is passed its bytes on one CPU. -/
theorem sum_passedOn (ls : List (KernelStep n)) (tgid : UInt32) (p : Protocol) (d : Dir) :
    ∑ cpu, passedOn ls tgid p d cpu = passed ls tgid p d := by
  induction ls with
  | nil => simp [passedOn, passed]
  | cons l ls ih =>
    simp only [passedOn, passed, List.map_cons, List.sum_cons, Finset.sum_add_distrib] at ih ⊢
    rw [ih]
    cases l with
    | enter cpu t addr sent recv protocol => simp [KernelStep.passesOn]
    | spawn t => simp [KernelStep.passesOn, KernelStep.passes]
    | run cpu => simp [KernelStep.passesOn, KernelStep.passes]
    | exit t => simp [KernelStep.passesOn, KernelStep.passes]

/-- Whether a call of a process can be there, given the entry that the process has. -/
def Pc.Fits (entry : Option ℕ) : Pc → Prop
  | .lookup | .insert => True
  | .update id | .reserve id | .submit id => entry = some id
  | .lookupAgain => entry ≠ none

theorem Pc.Fits.mono {entry entry' : Option ℕ} {pc : Pc} (h : pc.Fits entry)
    (hentry : ∀ id, entry = some id → entry' = some id) : pc.Fits entry' := by
  cases pc with
  | lookup => trivial
  | insert => trivial
  | update id => exact hentry id h
  | reserve id => exact hentry id h
  | submit id => exact hentry id h
  | lookupAgain =>
    obtain ⟨id, hid⟩ := Option.ne_none_iff_exists'.mp h
    rw [Pc.Fits, hentry id hid]
    exact nofun

/-- Beyond its first lookup, and unless it is about to insert one, a call has an entry. -/
theorem Pc.Fits.ne_none {entry : Option ℕ} {pc : Pc} (h : pc.Fits entry) (hlookup : pc ≠ .lookup)
    (hinsert : pc ≠ .insert) : entry ≠ none := by
  cases pc with
  | lookup => exact absurd rfl hlookup
  | insert => exact absurd rfl hinsert
  | update id => exact Option.ne_none_iff_exists'.mpr ⟨id, h⟩
  | reserve id => exact Option.ne_none_iff_exists'.mpr ⟨id, h⟩
  | submit id => exact Option.ne_none_iff_exists'.mpr ⟨id, h⟩
  | lookupAgain => exact h

namespace Kernel

variable {k k' : Kernel n} {tgid : UInt32} {p : Protocol} {d : Dir} {l : KernelStep n}

/-- A step that does not delete the entry of a process, and does not fail to insert it. -/
def Keeps (tgid : UInt32) (k : Kernel n) : KernelStep n → Prop
  | .exit t => t = leader tgid → k.entryId tgid = none
  | .run cpu => ∀ c ∈ k.calls cpu, c.pc = .insert → c.thread.tgid = tgid →
    k.stats.lookup tgid = none → ¬ k.stats.full
  | .spawn _ | .enter .. => True

instance (tgid : UInt32) (k : Kernel n) : DecidablePred (k.Keeps tgid)
  | .exit _ => inferInstanceAs (Decidable (_ → _))
  | .run _ => inferInstanceAs (Decidable (∀ _ ∈ _, _ → _ → _ → _))
  | .spawn _ | .enter .. => inferInstanceAs (Decidable True)

theorem Keeps.exit (hkeeps : k.Keeps tgid l) (hl : l = .exit (leader tgid)) :
    k.entryId tgid = none := by
  subst hl
  exact hkeeps rfl

/-- **An entry stays** unless the leader of its process exits. -/
theorem entryId_stays (hexit : l = .exit (leader tgid) → k.entryId tgid = none)
    (h : k.step l = some k') (id : ℕ) (hid : k.entryId tgid = some id) :
    k'.entryId tgid = some id := by
  rcases entryId_step h tgid with ⟨-, hnone, -⟩ | ⟨hl, -, -⟩ | ⟨-, -, hsame⟩
  · rw [hnone] at hid
    cases hid
  · rw [hexit hl] at hid
    cases hid
  · exact hsame.trans hid

/-! ### Where a call goes next -/

/-- Where the next map operation takes a call, unless it returns. -/
def nextPc (k : Kernel n) (c : Call) : Option Pc :=
  match c.pc with
  | .lookup => some ((k.entryId c.thread.tgid).elim .insert .update)
  | .update _ | .submit _ => none
  | .insert =>
    if k.stats.lookup c.thread.tgid = none ∧ ¬ k.stats.full then some (.reserve k.nextId)
    else some .lookupAgain
  | .reserve id => if ringHasRoom k.events then some (.submit id) else none
  | .lookupAgain => (k.entryId c.thread.tgid).map .update

/-- What the next map operation of a call does to the calls. -/
theorem calls_accountBytes (k : Kernel n) (cpu : Fin n) (c : Call) :
    (k.accountBytes cpu c).calls =
      Function.update k.calls cpu ((k.nextPc c).map fun pc => { c with pc := pc }) := by
  simp only [accountBytes, nextPc, entryId]
  cases hpc : c.pc with
  | lookup => cases k.stats.lookup c.thread.tgid <;> rfl
  | update id => rfl
  | insert =>
    simp only
    by_cases hins : k.stats.lookup c.thread.tgid = none ∧ ¬ k.stats.full
    · obtain ⟨stats, hstats⟩ := Option.isSome_iff_exists.mp
        (BoundedMap.insertNew_isSome (v := Entry.create k.nextId cpu
          (updateStats default c.protocol c.sent c.recv c.addr)).mpr hins)
      rw [hstats, if_pos hins]
      rfl
    · have hnone : k.stats.insertNew c.thread.tgid (.create k.nextId cpu
          (updateStats default c.protocol c.sent c.recv c.addr)) = none :=
        Option.not_isSome_iff_eq_none.mp (mt BoundedMap.insertNew_isSome.mp hins)
      rw [hnone, if_neg hins]
      rfl
  | reserve id =>
    simp only
    split_ifs <;> rfl
  | submit id => rfl
  | lookupAgain => cases k.stats.lookup c.thread.tgid <;> rfl

/-! ### The entry that the calls work on -/

/-- The calls of a process work on the entry that the process has. -/
def Tracks (tgid : UInt32) (k : Kernel n) : Prop :=
  ∀ cpu, ∀ c ∈ k.calls cpu, c.thread.tgid = tgid → c.pc.Fits (k.entryId tgid)

/-- A call goes on with the entry that the process has then. -/
theorem fits_nextPc {cpu : Fin n} {c : Call} (hk : k.Tracks tgid) (hc : c ∈ k.calls cpu)
    (htgid : c.thread.tgid = tgid) (hkeeps : k.Keeps tgid (.run cpu))
    (h : k.step (.run cpu) = some k') {pc : Pc} (hpc : k.nextPc c = some pc) :
    pc.Fits (k'.entryId tgid) := by
  have hfits := hk cpu c hc htgid
  have hmono := entryId_stays hkeeps.exit h
  rw [nextPc] at hpc
  cases hcur : c.pc with
  | lookup =>
    rw [hcur, htgid] at hpc
    obtain rfl := Option.some.inj hpc
    cases hid : k.entryId tgid with
    | none => trivial
    | some id => exact hmono id hid
  | update id =>
    rw [hcur] at hpc
    cases hpc
  | insert =>
    rw [hcur, htgid] at hpc
    by_cases hins : k.stats.lookup tgid = none ∧ ¬ k.stats.full
    · -- The new entry is the one whose start event comes next.
      simp only [if_pos hins, Option.some.injEq] at hpc
      subst hpc
      have hinserts : k.Inserts (.run cpu) tgid := ⟨cpu, c, hc, rfl, hcur, htgid, hins⟩
      rcases entryId_step h tgid with ⟨-, -, hnew, -⟩ | ⟨hl, -⟩ | ⟨hnot, -⟩
      · exact hnew
      · cases hl
      · exact absurd hinserts hnot
    · -- The insertion fails because there is an entry by now: there is room for one.
      simp only [if_neg hins, Option.some.injEq] at hpc
      subst hpc
      have hne : k.entryId tgid ≠ none := by
        intro hnone
        rw [entryId_eq_none] at hnone
        exact hins ⟨hnone, hkeeps c hc hcur htgid hnone⟩
      exact Pc.Fits.mono (show Pc.lookupAgain.Fits _ from hne) hmono
  | reserve id =>
    rw [hcur] at hpc hfits
    obtain ⟨-, hsubmit⟩ := Option.ite_none_right_eq_some.mp hpc
    obtain rfl := Option.some.inj hsubmit
    exact hmono id hfits
  | submit id =>
    rw [hcur] at hpc
    cases hpc
  | lookupAgain =>
    rw [hcur, htgid] at hpc
    obtain ⟨id, hid, rfl⟩ := Option.map_eq_some_iff.mp hpc
    exact hmono id hid

/-- The step lemma: the calls of a process go on working on its entry. -/
theorem Tracks.step (hk : k.Tracks tgid) (hkeeps : k.Keeps tgid l) (h : k.step l = some k') :
    k'.Tracks tgid := by
  intro cpu c hc htgid
  rcases mem_calls_step h hc with ⟨hold, -⟩ | ⟨-, hpc, -⟩ | ⟨d, hd, rfl, hthread⟩
  · exact (hk cpu c hold htgid).mono (entryId_stays hkeeps.exit h)
  · rw [hpc]
    trivial
  · -- The call has just done a map operation.
    obtain rfl : k.accountBytes cpu d = k' := by simpa [Kernel.step, Option.mem_def.mp hd] using h
    rw [calls_accountBytes, Function.update_self] at hc
    obtain ⟨pc, hpc, rfl⟩ := Option.map_eq_some_iff.mp hc
    exact fits_nextPc hk hd htgid hkeeps h hpc

/-! ### What the counters and the calls make up -/

/-- The value of a process on a CPU, zero without an entry. -/
def value (k : Kernel n) (tgid : UInt32) (cpu : Fin n) : ProcStats :=
  ((k.stats.lookup tgid).map fun entry => entry.values cpu).getD default

/-- The bytes that the call of a CPU has yet to add for a process. -/
def pendingOn (k : Kernel n) (tgid : UInt32) (p : Protocol) (d : Dir) (cpu : Fin n) : ℕ :=
  ((k.calls cpu).map fun c =>
    if c.thread.tgid = tgid ∧ c.pc.announces = none then c.amount p d else 0).getD 0

/-- The bytes that a write adds for a process on a CPU. -/
def wroteOn (w : Option (Write n)) (tgid : UInt32) (p : Protocol) (d : Dir) (cpu : Fin n) : ℕ :=
  (w.map fun w => if w.call.thread.tgid = tgid ∧ w.cpu = cpu then w.call.amount p d else 0).getD 0

theorem value_of_lookup {entry : Entry n} (h : k.stats.lookup tgid = some entry) (cpu : Fin n) :
    k.value tgid cpu = entry.values cpu := by
  rw [value, h]
  rfl

theorem value_of_none (h : k.stats.lookup tgid = none) (cpu : Fin n) :
    k.value tgid cpu = default := by
  rw [value, h]
  rfl

/-- **What a step does to the value of a process on a CPU**: the write of the step is carried
out on it, or it stays as it is. -/
theorem value_step (hexit : l = .exit (leader tgid) → k.entryId tgid = none)
    (h : k.step l = some k') (cpu : Fin n) :
    (∃ w ∈ k.writes l, w.call.thread.tgid = tgid ∧ w.cpu = cpu ∧
      k'.value tgid cpu = updateStats (k.value tgid cpu) w.call.protocol w.call.sent w.call.recv
        w.call.addr) ∨
    ((∀ w ∈ k.writes l, w.call.thread.tgid = tgid → w.cpu ≠ cpu) ∧
      k'.value tgid cpu = k.value tgid cpu) := by
  cases hentry : k'.stats.lookup tgid with
  | none =>
    have hnone : k.stats.lookup tgid = none := by
      by_contra hsome
      obtain ⟨id, hid⟩ := Option.ne_none_iff_exists'.mp (mt entryId_eq_none.mp hsome)
      exact absurd (entryId_eq_none.mpr hentry) (by rw [entryId_stays hexit h _ hid]; nofun)
    refine Or.inr ⟨fun w hw htgid _ => ?_, by rw [value_of_none hentry, value_of_none hnone]⟩
    have hid := (entry_of_writes h hw).1
    rw [htgid, entryId_eq_none.mpr hentry] at hid
    cases hid
  | some entry' =>
    rcases lookup_step h hentry with ⟨hold, hother⟩ | ⟨entry, cpu', c, hold, rfl, hw, htgid⟩ |
      ⟨cpu', c, hnone, hw, htgid, rfl⟩
    · refine Or.inr ⟨fun w hw htgid => absurd htgid (hother w hw), ?_⟩
      rw [value_of_lookup hentry, value_of_lookup hold]
    · -- An update writes to the slot of its own CPU.
      rw [value_of_lookup hentry, value_of_lookup hold, Entry.values_update]
      by_cases hcpu : cpu = cpu'
      · exact Or.inl ⟨_, hw, htgid, hcpu.symm, by rw [if_pos hcpu, hcpu]⟩
      · refine Or.inr ⟨fun w hw' _ => ?_, if_neg hcpu⟩
        rw [Option.mem_def.mp hw', Option.some.injEq] at hw
        rw [hw]
        exact Ne.symm hcpu
    · -- An insertion clears the slots of the other CPUs, which read zero before.
      rw [value_of_lookup hentry, value_of_none hnone, Entry.values_create]
      by_cases hcpu : cpu = cpu'
      · exact Or.inl ⟨_, hw, htgid, hcpu.symm, if_pos hcpu⟩
      · refine Or.inr ⟨fun w hw' _ => ?_, if_neg hcpu⟩
        rw [Option.mem_def.mp hw', Option.some.injEq] at hw
        rw [hw]
        exact Ne.symm hcpu

theorem wroteOn_eq_zero {w : Option (Write n)} {cpu : Fin n}
    (h : ∀ v ∈ w, v.call.thread.tgid = tgid → v.cpu ≠ cpu) : wroteOn w tgid p d cpu = 0 := by
  cases w with
  | none => rfl
  | some w =>
    rw [wroteOn, Option.map_some, Option.getD_some]
    exact if_neg fun hand => h w rfl hand.1 hand.2

/-- A write is made by the call that runs. -/
theorem call_of_writes {w : Write n} (hw : w ∈ k.writes l) :
    l = .run w.cpu ∧ w.call ∈ k.calls w.cpu := by
  cases l with
  | spawn t => cases hw
  | enter cpu t addr sent recv protocol => cases hw
  | exit t => cases hw
  | run cpu =>
    obtain ⟨c, hc, hw⟩ := Option.bind_eq_some_iff.mp hw
    cases hpc : c.pc with
    | update id =>
      simp only [hpc] at hw
      obtain rfl := Option.some.inj (Option.ite_none_right_eq_some.mp hw).2
      exact ⟨rfl, hc⟩
    | insert =>
      simp only [hpc] at hw
      obtain rfl := Option.some.inj (Option.ite_none_right_eq_some.mp hw).2
      exact ⟨rfl, hc⟩
    | lookup => simp [hpc] at hw
    | reserve id => simp [hpc] at hw
    | submit id => simp [hpc] at hw
    | lookupAgain => simp [hpc] at hw

/-- The counter of a CPU grows by what is written to it, modulo its size. -/
theorem counter_step (hkeeps : k.Keeps tgid l) (h : k.step l = some k') (p : Protocol) (d : Dir)
    (cpu : Fin n) :
    ((k'.value tgid cpu).counter p d).toNat ≡
      ((k.value tgid cpu).counter p d).toNat + wroteOn (k.writes l) tgid p d cpu [MOD 2 ^ 64] := by
  rcases value_step hkeeps.exit h cpu with ⟨w, hw, htgid, hcpu, hvalue⟩ | ⟨hother, hvalue⟩
  · have hwrote : wroteOn (k.writes l) tgid p d cpu = w.call.amount p d := by
      rw [wroteOn, Option.mem_def.mp hw, Option.map_some, Option.getD_some, if_pos ⟨htgid, hcpu⟩]
    rw [hvalue, toNat_counter_updateStats, hwrote]
    exact Nat.mod_modEq _ _
  · rw [hvalue, wroteOn_eq_zero hother, Nat.add_zero]

/-- What the call of a CPU has yet to add, before and after its next map operation: it adds it
there, or later. -/
theorem pendingOn_run {cpu : Fin n} {c : Call} (hk : k.Tracks tgid) (hc : k.calls cpu = some c)
    (p : Protocol) (d : Dir) :
    (k.accountBytes cpu c).pendingOn tgid p d cpu + wroteOn (k.writes (.run cpu)) tgid p d cpu =
      k.pendingOn tgid p d cpu := by
  have hbefore : k.pendingOn tgid p d cpu =
      if c.thread.tgid = tgid ∧ c.pc.announces = none then c.amount p d else 0 := by
    rw [pendingOn, hc]
    rfl
  have hafter : (k.accountBytes cpu c).pendingOn tgid p d cpu =
      ((k.nextPc c).map fun pc =>
        if c.thread.tgid = tgid ∧ pc.announces = none then c.amount p d else 0).getD 0 := by
    rw [pendingOn, calls_accountBytes, Function.update_self, Option.map_map]
    rfl
  rw [hbefore, hafter]
  by_cases htgid : c.thread.tgid = tgid
  · have hfits := hk cpu c hc htgid
    simp only [writes_run hc, nextPc, htgid, true_and]
    cases hpc : c.pc with
    | lookup => cases k.entryId tgid <;> simp [wroteOn, Pc.announces]
    | update id =>
      rw [hpc] at hfits
      simp [wroteOn, Pc.announces, hfits.symm, htgid]
    | insert =>
      by_cases hins : k.stats.lookup tgid = none ∧ ¬ k.stats.full
      · simp [wroteOn, Pc.announces, hins, htgid]
      · simp [wroteOn, Pc.announces, hins]
    | reserve id => by_cases hroom : ringHasRoom k.events <;> simp [wroteOn, Pc.announces, hroom]
    | submit id => simp [wroteOn, Pc.announces]
    | lookupAgain =>
      rw [hpc] at hfits
      obtain ⟨id, hid⟩ := Option.ne_none_iff_exists'.mp hfits
      simp [wroteOn, Pc.announces, hid]
  · -- The call is one of another process.
    have hzero : ∀ o : Option Pc, (o.map fun pc =>
        if c.thread.tgid = tgid ∧ pc.announces = none then c.amount p d else 0).getD 0 = 0 := by
      intro o
      cases o <;> simp [htgid]
    have hwrote : wroteOn (k.writes (.run cpu)) tgid p d cpu = 0 := by
      refine wroteOn_eq_zero fun w hw hw' hcpu => htgid ?_
      have hcall := (call_of_writes hw).2
      rw [hcpu, hc] at hcall
      rw [Option.some.inj hcall, hw']
    rw [hzero, hwrote, if_neg fun hand => htgid hand.1]

/-- **The step lemma for what is still to be added**: a step adds to it what it passes to a call,
and takes from it what it writes. -/
theorem pendingOn_step (hk : k.Tracks tgid) (h : k.step l = some k') (p : Protocol) (d : Dir)
    (cpu : Fin n) :
    k'.pendingOn tgid p d cpu + wroteOn (k.writes l) tgid p d cpu =
      k.pendingOn tgid p d cpu + l.passesOn tgid p d cpu := by
  rcases step_cases h with ⟨t, rfl, -, rfl⟩ |
    ⟨cpu', t, addr, sent, recv, protocol, rfl, -, -, hfree, rfl⟩ | ⟨cpu', c, rfl, hc, rfl⟩ |
    ⟨t, rfl, -, -, rfl⟩
  · rfl
  · have hwrote : wroteOn (k.writes (.enter cpu' t addr sent recv protocol)) tgid p d cpu = 0 := rfl
    rw [hwrote, Nat.add_zero]
    by_cases hcpu : cpu' = cpu
    · subst hcpu
      simp [pendingOn, hfree, KernelStep.passesOn, KernelStep.passes, Pc.announces]
    · simp [pendingOn, KernelStep.passesOn, hcpu, Function.update_of_ne (Ne.symm hcpu)]
  · have hpasses : (KernelStep.run cpu').passesOn tgid p d cpu = 0 := rfl
    rw [hpasses, Nat.add_zero]
    by_cases hcpu : cpu' = cpu
    · subst hcpu
      exact pendingOn_run hk hc p d
    · have hwrote : wroteOn (k.writes (.run cpu')) tgid p d cpu = 0 := by
        refine wroteOn_eq_zero fun w hw _ heq => hcpu ?_
        rw [KernelStep.run.inj (call_of_writes hw).1, heq]
      rw [hwrote, pendingOn, calls_accountBytes, Function.update_of_ne (Ne.symm hcpu), pendingOn,
        Nat.add_zero]
  · have hcalls : (k.procnetSchedProcessExit t).calls = k.calls := by
      rw [procnetSchedProcessExit]
      split_ifs <;> rfl
    rw [pendingOn, hcalls]
    rfl

/-- **The counters and the calls of a process make up what the calls were passed**, CPU by CPU
and modulo the size of a counter. -/
def Settles (tgid : UInt32) (k : Kernel n) (ls : List (KernelStep n)) : Prop :=
  ∀ p d cpu, ((k.value tgid cpu).counter p d).toNat + k.pendingOn tgid p d cpu ≡
    passedOn ls tgid p d cpu [MOD 2 ^ 64]

theorem Settles.step {ls : List (KernelStep n)} (hs : k.Settles tgid ls) (hk : k.Tracks tgid)
    (hkeeps : k.Keeps tgid l) (h : k.step l = some k') : k'.Settles tgid (ls ++ [l]) := by
  intro p d cpu
  have hpending := pendingOn_step hk h p d cpu
  calc ((k'.value tgid cpu).counter p d).toNat + k'.pendingOn tgid p d cpu
      ≡ ((k.value tgid cpu).counter p d).toNat + wroteOn (k.writes l) tgid p d cpu +
          k'.pendingOn tgid p d cpu [MOD 2 ^ 64] :=
        (counter_step hkeeps h p d cpu).add_right _
    _ = ((k.value tgid cpu).counter p d).toNat + k.pendingOn tgid p d cpu +
          l.passesOn tgid p d cpu := by omega
    _ ≡ passedOn ls tgid p d cpu + l.passesOn tgid p d cpu [MOD 2 ^ 64] :=
        (hs p d cpu).add_right _
    _ = passedOn (ls ++ [l]) tgid p d cpu := (passedOn_concat ls l tgid p d cpu).symm

/-- A process whose call has started has an entry, or a call under way. -/
def Started (tgid : UInt32) (k : Kernel n) (ls : List (KernelStep n)) : Prop :=
  (∃ l ∈ ls, l.Calls tgid) →
    k.entryId tgid ≠ none ∨ ∃ cpu, ∃ c ∈ k.calls cpu, c.thread.tgid = tgid

/-- A call that returns leaves an entry behind. -/
theorem Started.step {ls : List (KernelStep n)} (hs : k.Started tgid ls) (hk : k.Tracks tgid)
    (hkeeps : k.Keeps tgid l) (h : k.step l = some k') : k'.Started tgid (ls ++ [l]) := by
  rintro ⟨l', hl', hcalls⟩
  have hentry : k.entryId tgid ≠ none → k'.entryId tgid ≠ none := by
    intro hne
    obtain ⟨id, hid⟩ := Option.ne_none_iff_exists'.mp hne
    rw [entryId_stays hkeeps.exit h _ hid]
    exact nofun
  by_cases hnew : l.Calls tgid
  · -- the call has just started
    cases l with
    | enter cpu t addr sent recv protocol =>
      obtain ⟨-, hk'⟩ := Option.ite_none_right_eq_some.mp h
      obtain rfl := Option.some.inj hk'
      exact Or.inr ⟨cpu, ⟨t, addr, sent, recv, protocol, .lookup⟩, by simp, hnew⟩
    | spawn t => exact hnew.elim
    | run cpu => exact hnew.elim
    | exit t => exact hnew.elim
  · have hold : ∃ l ∈ ls, l.Calls tgid := by
      rcases List.mem_append.mp hl' with hmem | hmem
      · exact ⟨l', hmem, hcalls⟩
      · exact absurd (List.mem_singleton.mp hmem ▸ hcalls) hnew
    rcases hs hold with hne | ⟨cpu, c, hc, htgid⟩
    · exact Or.inl (hentry hne)
    · by_cases hl : l = .run cpu
      · subst hl
        obtain rfl : k.accountBytes cpu c = k' := by
          simpa [Kernel.step, Option.mem_def.mp hc] using h
        cases hpc : k.nextPc c with
        | some pc =>
          refine Or.inr ⟨cpu, { c with pc := pc }, ?_, htgid⟩
          rw [calls_accountBytes, Function.update_self, hpc]
          rfl
        | none =>
          -- It returns, from a step that it takes with an entry only.
          refine Or.inl (hentry ?_)
          have hfits := hk cpu c hc htgid
          refine hfits.ne_none ?_ ?_
          · intro hcur
            rw [nextPc, hcur] at hpc
            cases hpc
          · intro hcur
            simp only [nextPc, hcur] at hpc
            split_ifs at hpc
      · exact Or.inr ⟨cpu, c, calls_step h hc hl, htgid⟩

/-! ### The start event -/

/-- The entry of a process whose start event a step attempts to emit. -/
def attempts (tgid : UInt32) (k : Kernel n) : KernelStep n → Option ℕ
  | .run cpu => (k.calls cpu).bind fun c =>
    match c.pc with
    | .reserve id => if c.thread.tgid = tgid then some id else none
    | .lookup | .update _ | .insert | .submit _ | .lookupAgain => none
  | .spawn _ | .enter .. | .exit _ => none

theorem attempts_eq_some {id : ℕ} :
    k.attempts tgid l = some id ↔ ∃ cpu, ∃ c ∈ k.calls cpu, l = .run cpu ∧ c.thread.tgid = tgid ∧
      c.pc = .reserve id := by
  constructor
  · intro h
    cases l with
    | spawn t => cases h
    | enter cpu t addr sent recv protocol => cases h
    | exit t => cases h
    | run cpu =>
      obtain ⟨c, hc, hid⟩ := Option.bind_eq_some_iff.mp h
      cases hpc : c.pc with
      | reserve id' =>
        rw [hpc] at hid
        obtain ⟨htgid, hid⟩ := Option.ite_none_right_eq_some.mp hid
        exact ⟨cpu, c, hc, rfl, htgid, by rw [hpc, Option.some.inj hid]⟩
      | lookup => simp [hpc] at hid
      | update id' => simp [hpc] at hid
      | insert => simp [hpc] at hid
      | submit id' => simp [hpc] at hid
      | lookupAgain => simp [hpc] at hid
  · rintro ⟨cpu, c, hc, rfl, htgid, hpc⟩
    rw [attempts, Option.mem_def.mp hc, Option.bind_some]
    simp only [hpc, if_pos htgid]

/-- Whether a call of a process is about to attempt the start event of an entry. -/
def Attempting (tgid : UInt32) (k : Kernel n) (id : ℕ) : Prop :=
  ∃ cpu, ∃ c ∈ k.calls cpu, c.thread.tgid = tgid ∧ c.pc = .reserve id

/-- **What has been attempted for a process**: nothing as long as it has no entry; then the
start event of the entry, once, unless a call is about to. -/
def Attempted (tgid : UInt32) (k : Kernel n) (ids : List ℕ) : Prop :=
  match k.entryId tgid with
  | none => ids = []
  | some id => (ids = [] ∧ k.Attempting tgid id) ∨ (ids = [id] ∧ ¬ k.Attempting tgid id)

/-- **Which calls are about to attempt a start event**: those that were and have not run, and the
one that has just inserted the entry. -/
theorem attempting_step (hann : k.Announcing) (h : k.step l = some k') {id : ℕ} :
    k'.Attempting tgid id ↔
      (k.Attempting tgid id ∧ k.attempts tgid l ≠ some id) ∨
        (k.Inserts l tgid ∧ id = k.nextId) := by
  constructor
  · rintro ⟨cpu, c, hc, htgid, hpc⟩
    have hid : id ∈ c.pc.announces := by
      rw [hpc]
      rfl
    rcases announces_step h hc hid with ⟨hold, hl⟩ |
      ⟨d, hd, hl, hthread, ⟨hins, -, hnew⟩ | ⟨-, hsubmit, -⟩⟩
    · refine Or.inl ⟨⟨cpu, c, hold, htgid, hpc⟩, fun hattempt => ?_⟩
      obtain ⟨cpu', c', hc', rfl, -, hpc'⟩ := attempts_eq_some.mp hattempt
      have hid' : id ∈ c'.pc.announces := by
        rw [hpc']
        rfl
      exact hl (congrArg KernelStep.run (hann.unique cpu' cpu c' hc' c hold id hid' hid))
    · exact Or.inr ⟨htgid ▸ hins, hnew⟩
    · exact absurd (hpc.symm.trans hsubmit) nofun
  · rintro (⟨⟨cpu, c, hc, htgid, hpc⟩, hattempt⟩ | ⟨⟨cpu, c, hc, rfl, hpc, htgid, hins⟩, rfl⟩)
    · refine ⟨cpu, c, calls_step h hc ?_, htgid, hpc⟩
      rintro rfl
      exact hattempt (attempts_eq_some.mpr ⟨cpu, c, hc, rfl, htgid, hpc⟩)
    · obtain rfl : k.accountBytes cpu c = k' := by simpa [Kernel.step, Option.mem_def.mp hc] using h
      refine ⟨cpu, { c with pc := .reserve k.nextId }, ?_, htgid, rfl⟩
      simp only [calls_accountBytes, Function.update_self, nextPc, hpc, htgid, if_pos hins]
      rfl

/-- What is attempted for a process is the start event of its entry. -/
theorem entryId_of_attempts (hk : k.Tracks tgid) {id : ℕ} (h : k.attempts tgid l = some id) :
    k.entryId tgid = some id ∧ k.Attempting tgid id := by
  obtain ⟨cpu, c, hc, -, htgid, hpc⟩ := attempts_eq_some.mp h
  have hfits := hk cpu c hc htgid
  rw [hpc] at hfits
  exact ⟨hfits, cpu, c, hc, htgid, hpc⟩

/-- The step lemma: the start event of an entry is attempted once. -/
theorem Attempted.step {ids : List ℕ} (ha : k.Attempted tgid ids) (hann : k.Announcing)
    (hk : k.Tracks tgid) (hkeeps : k.Keeps tgid l) (h : k.step l = some k') :
    k'.Attempted tgid (ids ++ (k.attempts tgid l).toList) := by
  rw [Attempted] at ha ⊢
  rcases entryId_step h tgid with ⟨hins, hnone, hnew, -⟩ | ⟨rfl, -, hnone'⟩ | ⟨hins, -, hsame⟩
  · -- the entry is new
    rw [hnone] at ha
    have hattempts : k.attempts tgid l = none := by
      refine Option.eq_none_iff_forall_ne_some.mpr fun id hid => ?_
      exact absurd (entryId_of_attempts hk hid).1 (by rw [hnone]; nofun)
    rw [hnew, hattempts]
    exact Or.inl ⟨by rw [ha]; rfl, (attempting_step hann h).mpr (Or.inr ⟨hins, rfl⟩)⟩
  · rw [hkeeps rfl] at ha
    rw [hnone', ha]
    rfl
  · rw [hsame]
    cases hentry : k.entryId tgid with
    | none =>
      rw [hentry] at ha
      have hattempts : k.attempts tgid l = none := by
        refine Option.eq_none_iff_forall_ne_some.mpr fun id hid => ?_
        exact absurd (entryId_of_attempts hk hid).1 (by rw [hentry]; nofun)
      rw [hattempts, show ids = [] from ha]
      rfl
    | some id =>
      rw [hentry] at ha
      have hid : ∀ id', k.attempts tgid l = some id' → id' = id := by
        intro id' hid'
        rw [(entryId_of_attempts hk hid').1] at hentry
        exact Option.some.inj hentry
      rcases ha with ⟨rfl, hattempting⟩ | ⟨rfl, hnot⟩
      · -- A call is about to attempt the event: either in this step or later.
        by_cases hattempts : k.attempts tgid l = some id
        · refine Or.inr ⟨by rw [hattempts]; rfl, fun hcon => ?_⟩
          rcases (attempting_step hann h).mp hcon with ⟨-, hne⟩ | ⟨hnew, -⟩
          · exact hne hattempts
          · exact hins hnew
        · have hnone : k.attempts tgid l = none := by
            refine Option.eq_none_iff_forall_ne_some.mpr fun id' hid' => hattempts ?_
            rw [hid', hid id' hid']
          refine Or.inl ⟨by rw [hnone]; rfl, ?_⟩
          exact (attempting_step hann h).mpr (Or.inl ⟨hattempting, hattempts⟩)
      · -- The event has been attempted, and nobody else is about to.
        have hnone : k.attempts tgid l = none := by
          refine Option.eq_none_iff_forall_ne_some.mpr fun id' hid' => hnot ?_
          have hattempting := (entryId_of_attempts hk hid').2
          rwa [hid id' hid'] at hattempting
        refine Or.inr ⟨by rw [hnone]; rfl, fun hcon => ?_⟩
        rcases (attempting_step hann h).mp hcon with ⟨hold, -⟩ | ⟨hnew, -⟩
        · exact hnot hold
        · exact hins hnew

/-! ### Runs -/

variable {ls : List (KernelStep n)}

/-- A process without calls has nothing pending. -/
theorem pendingOn_eq_zero (hidle : ∀ cpu, ∀ c ∈ k.calls cpu, c.thread.tgid ≠ tgid) (p : Protocol)
    (d : Dir) (cpu : Fin n) : k.pendingOn tgid p d cpu = 0 := by
  cases hc : k.calls cpu with
  | none => rw [pendingOn, hc, Option.map_none, Option.getD_none]
  | some c =>
    rw [pendingOn, hc, Option.map_some, Option.getD_some]
    exact if_neg fun hand => hidle cpu c hc hand.1

/-- **Over a run**, the calls of a process work on its entry, and make up with its counters what
they were passed. -/
theorem settles_exec (hnone : k.stats.lookup tgid = none)
    (hidle : ∀ cpu, ∀ c ∈ k.calls cpu, c.thread.tgid ≠ tgid) (h : exec step k ls = some k')
    (hkeeps : Meets step (Keeps tgid) k ls) : k'.Settles tgid ls ∧ k'.Started tgid ls := by
  have hstart : k.Settles tgid [] := by
    intro p d cpu
    have hzero : (default : ProcStats).counter p d = 0 := by cases p <;> cases d <;> rfl
    rw [value_of_none hnone, pendingOn_eq_zero hidle, hzero]
    rfl
  have hrun : k'.Tracks tgid ∧ k'.Settles tgid ls ∧ k'.Started tgid ls := by
    refine exec_steps (C := Keeps tgid)
      (R := fun k ls => k.Tracks tgid ∧ k.Settles tgid ls ∧ k.Started tgid ls) ?_ hkeeps ?_ h
    · rintro u l u' ls hl ⟨htracks, hsettles, hstarted⟩ hu
      exact ⟨htracks.step hl hu, hsettles.step htracks hl hu, hstarted.step htracks hl hu⟩
    · exact ⟨fun cpu c hc htgid => absurd htgid (hidle cpu c hc), hstart,
        by rintro ⟨l, hl, -⟩; cases hl⟩
  exact hrun.2

/-- **Over a run**, the start event of the entry of a process is attempted once. -/
theorem attempted_exec (hann : k.Announcing) (hnone : k.stats.lookup tgid = none)
    (hidle : ∀ cpu, ∀ c ∈ k.calls cpu, c.thread.tgid ≠ tgid) (h : exec step k ls = some k')
    (hkeeps : Meets step (Keeps tgid) k ls) :
    k'.Attempted tgid (observe step (attempts tgid) k ls) := by
  have hstart : k.Attempted tgid [] := by
    rw [Attempted, entryId_eq_none.mpr hnone]
  have hrun : k'.Announcing ∧ k'.Tracks tgid ∧
      k'.Attempted tgid (observe step (attempts tgid) k ls) := by
    refine exec_observe (C := Keeps tgid)
      (R := fun k ids => k.Announcing ∧ k.Tracks tgid ∧ k.Attempted tgid ids) ?_ hkeeps ?_ h
    · rintro u l u' ids hl ⟨hann, htracks, hattempted⟩ hu
      exact ⟨hann.step hu, htracks.step hl hu, hattempted.step hann htracks hl hu⟩
    · exact ⟨hann, fun cpu c hc htgid => absurd htgid (hidle cpu c hc), hstart⟩
  exact hrun.2.2

/-! ### The other protocol -/

/-- **A call leaves the other protocol alone**, its bytes and its address, on every CPU and for
every process. -/
theorem proto_value_run {cpu : Fin n} {c : Call} (hc : k.calls cpu = some c)
    (h : k.step (.run cpu) = some k') {q : Protocol} (hq : q ≠ c.protocol) (tgid : UInt32)
    (cpu' : Fin n) : (k'.value tgid cpu').proto q = (k.value tgid cpu').proto q := by
  have hupdate : ∀ stats : ProcStats,
      (updateStats stats c.protocol c.sent c.recv c.addr).proto q = stats.proto q := by
    intro stats
    cases hp : c.protocol <;> cases q <;> simp_all [updateStats, ProcStats.proto]
  have hexit : (.run cpu : KernelStep n) = .exit (leader tgid) → k.entryId tgid = none := by
    rintro ⟨⟩
  rcases value_step hexit h cpu' with ⟨w, hw, -, -, hvalue⟩ | ⟨-, hvalue⟩
  · obtain ⟨hl, hcall⟩ := call_of_writes hw
    rw [← KernelStep.run.inj hl, hc] at hcall
    obtain rfl := Option.some.inj hcall
    rw [hvalue, hupdate]
  · rw [hvalue]

end Kernel

/-- **Racing calls lose nothing and count nothing twice**: from any state of any run in which a
process has no entry and no call under way, whatever calls of whatever processes run on however
many CPUs, and in whatever order they take their steps, as long as the entry of the process is
not deleted and `STATS` has room for it,

* when the calls of the process have returned, its counters add up to the bytes they were
  passed, modulo the size of a counter;
* one of them has attempted the start event of the entry, and no other;
* no call has touched the bytes or the address of the other protocol. -/
theorem racing_calls_conserve {n : ℕ} (tgid : UInt32) (ls₀ ls : List (KernelStep n))
    (k k' : Kernel n) (h₀ : exec Kernel.step .boot ls₀ = some k)
    (hnone : k.stats.lookup tgid = none) (hidle : ∀ cpu, ∀ c ∈ k.calls cpu, c.thread.tgid ≠ tgid)
    (h : exec Kernel.step k ls = some k') (hkeeps : Meets Kernel.step (Kernel.Keeps tgid) k ls)
    (hdone : ∀ cpu, ∀ c ∈ k'.calls cpu, c.thread.tgid ≠ tgid) :
    ((∃ l ∈ ls, l.Calls tgid) → ∃ entry, k'.stats.lookup tgid = some entry ∧
      (∀ p d,
        (∑ cpu, ((entry.values cpu).counter p d).toNat) ≡ passed ls tgid p d [MOD 2 ^ 64] ∧
        (passed ls tgid p d < 2 ^ 64 →
          ∑ cpu, ((entry.values cpu).counter p d).toNat = passed ls tgid p d)) ∧
      observe Kernel.step (Kernel.attempts tgid) k ls = [entry.id]) ∧
    ∀ ls₁ cpu ls₂ u u' c, ls = ls₁ ++ .run cpu :: ls₂ → exec Kernel.step k ls₁ = some u →
      u.calls cpu = some c → u.step (.run cpu) = some u' → ∀ q, q ≠ c.protocol →
      ∀ tgid' cpu', (u'.value tgid' cpu').proto q = (u.value tgid' cpu').proto q := by
  refine ⟨fun hcall => ?_, ?_⟩
  · obtain ⟨hsettles, hstarted⟩ := Kernel.settles_exec hnone hidle h hkeeps
    have hentry : k'.entryId tgid ≠ none := by
      rcases hstarted hcall with hentry | ⟨cpu, c, hc, htgid⟩
      · exact hentry
      · exact absurd htgid (hdone cpu c hc)
    obtain ⟨id, hid⟩ := Option.ne_none_iff_exists'.mp hentry
    obtain ⟨entry, hlookup, rfl⟩ := Kernel.entryId_eq_some.mp hid
    have hcounter : ∀ p d cpu, ((entry.values cpu).counter p d).toNat ≡
        passedOn ls tgid p d cpu [MOD 2 ^ 64] := by
      intro p d cpu
      have hcpu := hsettles p d cpu
      rwa [Kernel.pendingOn_eq_zero hdone, Nat.add_zero, Kernel.value_of_lookup hlookup] at hcpu
    refine ⟨entry, hlookup, fun p d => ⟨?_, fun hfits => ?_⟩, ?_⟩
    · rw [← sum_passedOn]
      exact Nat.ModEq.sum fun cpu _ => hcounter p d cpu
    · rw [← sum_passedOn] at hfits ⊢
      refine Finset.sum_congr rfl fun cpu _ => ?_
      have hle : passedOn ls tgid p d cpu ≤ ∑ cpu, passedOn ls tgid p d cpu :=
        Finset.single_le_sum (fun _ _ => Nat.zero_le _) (Finset.mem_univ cpu)
      exact (hcounter p d cpu).eq_of_lt_of_lt (UInt64.toNat_lt _) (by omega)
    · have hann : k.Announcing :=
        exec_invariant (fun _ _ _ hk hs => hk.step hs) Kernel.announcing_boot h₀
      have hattempted := Kernel.attempted_exec hann hnone hidle h hkeeps
      rw [Kernel.Attempted, hid] at hattempted
      rcases hattempted with ⟨-, cpu, c, hc, htgid, -⟩ | ⟨honce, -⟩
      · exact absurd htgid (hdone cpu c hc)
      · exact honce
  · intro ls₁ cpu ls₂ u u' c _ _ hc hu q hq tgid' cpu'
    exact Kernel.proto_value_run hc hu hq tgid' cpu'

/-- Two threads of a process both find no entry; the one on the first CPU inserts it. -/
def race : List (KernelStep 2) :=
  [.enter 0 (leader 7) default 100 0 .tcp, .enter 1 ⟨8, 7⟩ default 30 0 .tcp, .run 0, .run 1,
    .run 0, .run 1, .run 1, .run 0, .run 1, .run 0]

/-- Together they have sent 130 bytes. -/
theorem racing_calls_conserve_two :
    ∃ (k k' : Kernel 2) (entry : Entry 2),
      exec Kernel.step .boot [.spawn (leader 7), .spawn ⟨8, 7⟩] = some k ∧
      exec Kernel.step k race = some k' ∧ k'.stats.lookup 7 = some entry ∧
      ∑ cpu, ((entry.values cpu).counter .tcp .sent).toNat = 130 := by
  obtain ⟨k, hk, hstart⟩ := exists_exec_of_any Kernel.step (.boot : Kernel 2)
    [.spawn (leader 7), .spawn ⟨8, 7⟩]
    (fun k : Kernel 2 => decide (k.stats.lookup 7 = none ∧ (∀ cpu, k.calls cpu = none) ∧
        Meets Kernel.step (Kernel.Keeps 7) k race) &&
      (exec Kernel.step k race).any fun k' : Kernel 2 => decide (∀ cpu, k'.calls cpu = none))
    (by decide +kernel)
  obtain ⟨hstart, hend⟩ := Bool.and_eq_true_iff.mp hstart
  obtain ⟨hnone, hidle, hkeeps⟩ := of_decide_eq_true hstart
  obtain ⟨k', hk', hend⟩ := (Option.any_eq_true _ _).mp hend
  have hdone := of_decide_eq_true hend
  obtain ⟨hentry, -⟩ := racing_calls_conserve 7 _ race k k' hk hnone
    (fun cpu c hc => absurd (hidle cpu ▸ hc) nofun) hk' hkeeps
    (fun cpu c hc => absurd (hdone cpu ▸ hc) nofun)
  obtain ⟨entry, hlookup, hsum, -⟩ :=
    hentry ⟨.enter 0 (leader 7) default 100 0 .tcp, by decide, rfl⟩
  have hpassed : passed race 7 .tcp .sent = 130 := by decide
  exact ⟨k, k', entry, hk, hk', hlookup,
    ((hsum .tcp .sent).2 (by rw [hpassed]; decide)).trans hpassed⟩

end Procnet
