import Procnet.Bpf.Races

/-!
# The books of the kernel side

A call of `account_bytes` is passed bytes, and either adds them to an entry or returns without
having done so: it finds no entry after its insertion has failed, or the entry that it has found is
deleted before it adds to it. `Kernel.writes` and `Kernel.drops` say what a step does of the one
and of the other, and over every run the two of them, together with what calls under way have yet
to do, make up what was passed (`bytes_accounted`). What an entry holds is a part of what was
written for its process. Both rest on the assumption that an update which comes too late is lost.
-/

namespace Procnet

open Lib

variable {n : ℕ}

/-- The bytes for a process that some calls have added to entries. -/
def writtenFor (ws : List (Write n)) (tgid : UInt32) (p : Protocol) (d : Dir) : ℕ :=
  (ws.map fun w => if w.call.thread.tgid = tgid then w.call.amount p d else 0).sum

/-- A call returns without having added its bytes. -/
structure Drop (n : ℕ) where
  cpu : Fin n
  call : Call
  deriving DecidableEq, Repr

/-- The bytes for a process that some calls have not added. -/
def droppedFor (ds : List (Drop n)) (tgid : UInt32) (p : Protocol) (d : Dir) : ℕ :=
  (ds.map fun r => if r.call.thread.tgid = tgid then r.call.amount p d else 0).sum

theorem writtenFor_append (ws ws' : List (Write n)) (tgid : UInt32) (p : Protocol) (d : Dir) :
    writtenFor (ws ++ ws') tgid p d = writtenFor ws tgid p d + writtenFor ws' tgid p d := by
  rw [writtenFor, List.map_append, List.sum_append]
  rfl

theorem droppedFor_append (ds ds' : List (Drop n)) (tgid : UInt32) (p : Protocol) (d : Dir) :
    droppedFor (ds ++ ds') tgid p d = droppedFor ds tgid p d + droppedFor ds' tgid p d := by
  rw [droppedFor, List.map_append, List.sum_append]
  rfl

namespace Kernel

variable {k k' : Kernel n} {tgid : UInt32} {p : Protocol} {d : Dir} {l : KernelStep n}

/-- The call that returns in a step without having added its bytes. -/
def drops (k : Kernel n) : KernelStep n → Option (Drop n)
  | .run cpu => (k.calls cpu).bind fun c =>
    match c.pc with
    | .update id => if k.entryId c.thread.tgid = some id then none else some ⟨cpu, c⟩
    | .lookupAgain => if k.entryId c.thread.tgid = none then some ⟨cpu, c⟩ else none
    | .lookup | .insert | .reserve _ | .submit _ => none
  | .spawn _ | .enter .. | .exit _ => none

/-- The bytes that a step drops for a process on a CPU. -/
def droppedOn (r : Option (Drop n)) (tgid : UInt32) (p : Protocol) (d : Dir) (cpu : Fin n) : ℕ :=
  (r.map fun r => if r.call.thread.tgid = tgid ∧ r.cpu = cpu then r.call.amount p d else 0).getD 0

/-- A call is dropped by the CPU that runs it. -/
theorem call_of_drops {r : Drop n} (hr : r ∈ k.drops l) :
    l = .run r.cpu ∧ r.call ∈ k.calls r.cpu := by
  cases l with
  | spawn t => cases hr
  | enter cpu t addr sent recv protocol => cases hr
  | exit t => cases hr
  | run cpu =>
    obtain ⟨c, hc, hr⟩ := Option.bind_eq_some_iff.mp hr
    cases hpc : c.pc with
    | update id =>
      simp only [hpc] at hr
      obtain rfl := Option.some.inj (Option.ite_none_left_eq_some.mp hr).2
      exact ⟨rfl, hc⟩
    | lookupAgain =>
      simp only [hpc] at hr
      obtain rfl := Option.some.inj (Option.ite_none_right_eq_some.mp hr).2
      exact ⟨rfl, hc⟩
    | lookup => simp [hpc] at hr
    | insert => simp [hpc] at hr
    | reserve id => simp [hpc] at hr
    | submit id => simp [hpc] at hr

theorem droppedOn_eq_zero {r : Option (Drop n)} {cpu : Fin n}
    (h : ∀ v ∈ r, v.call.thread.tgid = tgid → v.cpu ≠ cpu) : droppedOn r tgid p d cpu = 0 := by
  cases r with
  | none => rfl
  | some r =>
    rw [droppedOn, Option.map_some, Option.getD_some]
    exact if_neg fun hand => h r rfl hand.1 hand.2

/-- What the call of a CPU has yet to add, before and after its next map operation: it adds it
there, drops it there, or does one of the two later. -/
theorem balance_run {cpu : Fin n} {c : Call} (hc : k.calls cpu = some c) (p : Protocol) (d : Dir) :
    (k.accountBytes cpu c).pendingOn tgid p d cpu + wroteOn (k.writes (.run cpu)) tgid p d cpu +
        droppedOn (k.drops (.run cpu)) tgid p d cpu =
      k.pendingOn tgid p d cpu := by
  have hbefore : k.pendingOn tgid p d cpu =
      if c.thread.tgid = tgid ∧ c.pc.announces = none then c.amount p d else 0 := by
    rw [pendingOn, hc]
    rfl
  have hafter : (k.accountBytes cpu c).pendingOn tgid p d cpu =
      ((k.nextPc c).map fun pc =>
        if c.thread.tgid = tgid ∧ pc.announces = none then c.amount p d else 0).getD 0 := by
    rw [pendingOn, calls_accountBytes, Function.update_self, Option.map_map]
    rfl
  rw [hbefore, hafter]
  by_cases htgid : c.thread.tgid = tgid
  · simp only [writes_run hc, drops, hc, Option.bind_some, nextPc, htgid, true_and]
    cases hpc : c.pc with
    | lookup => cases k.entryId tgid <;> simp [wroteOn, droppedOn, Pc.announces]
    | update id =>
      by_cases hid : k.entryId tgid = some id <;>
        simp [wroteOn, droppedOn, Pc.announces, hid, htgid]
    | insert =>
      by_cases hins : k.stats.lookup tgid = none ∧ ¬ k.stats.full <;>
        simp [wroteOn, droppedOn, Pc.announces, hins, htgid]
    | reserve id =>
      by_cases hroom : ringHasRoom k.events <;> simp [wroteOn, droppedOn, Pc.announces, hroom]
    | submit id => simp [wroteOn, droppedOn, Pc.announces]
    | lookupAgain =>
      cases hid : k.entryId tgid <;> simp [wroteOn, droppedOn, Pc.announces, htgid]
  · -- The call is one of another process.
    have hzero : ∀ o : Option Pc, (o.map fun pc =>
        if c.thread.tgid = tgid ∧ pc.announces = none then c.amount p d else 0).getD 0 = 0 := by
      intro o
      cases o <;> simp [htgid]
    have hwrote : wroteOn (k.writes (.run cpu)) tgid p d cpu = 0 := by
      refine wroteOn_eq_zero fun w hw hw' hcpu => htgid ?_
      have hcall := (call_of_writes hw).2
      rw [hcpu, hc] at hcall
      rw [Option.some.inj hcall, hw']
    have hdropped : droppedOn (k.drops (.run cpu)) tgid p d cpu = 0 := by
      refine droppedOn_eq_zero fun r hr hr' hcpu => htgid ?_
      have hcall := (call_of_drops hr).2
      rw [hcpu, hc] at hcall
      rw [Option.some.inj hcall, hr']
    rw [hzero, hwrote, hdropped, if_neg fun hand => htgid hand.1]

/-- **The step lemma**, CPU by CPU: a step adds to what is under way what it passes to a call, and
takes from it what it writes and what it drops. -/
theorem balance_step (h : k.step l = some k') (tgid : UInt32) (p : Protocol) (d : Dir)
    (cpu : Fin n) :
    k'.pendingOn tgid p d cpu + wroteOn (k.writes l) tgid p d cpu +
        droppedOn (k.drops l) tgid p d cpu =
      k.pendingOn tgid p d cpu + l.passesOn tgid p d cpu := by
  rcases step_cases h with ⟨t, rfl, -, rfl⟩ |
    ⟨cpu', t, addr, sent, recv, protocol, rfl, -, -, hfree, rfl⟩ | ⟨cpu', c, rfl, hc, rfl⟩ |
    ⟨t, rfl, -, -, rfl⟩
  · rfl
  · have hwrote : wroteOn (k.writes (.enter cpu' t addr sent recv protocol)) tgid p d cpu = 0 := rfl
    have hdropped : droppedOn (k.drops (.enter cpu' t addr sent recv protocol)) tgid p d cpu = 0 :=
      rfl
    rw [hwrote, hdropped, Nat.add_zero]
    by_cases hcpu : cpu' = cpu
    · subst hcpu
      simp [pendingOn, hfree, KernelStep.passesOn, KernelStep.passes, Pc.announces]
    · simp [pendingOn, KernelStep.passesOn, hcpu, Function.update_of_ne (Ne.symm hcpu)]
  · have hpasses : (KernelStep.run cpu').passesOn tgid p d cpu = 0 := rfl
    rw [hpasses, Nat.add_zero]
    by_cases hcpu : cpu' = cpu
    · subst hcpu
      exact balance_run hc p d
    · have hwrote : wroteOn (k.writes (.run cpu')) tgid p d cpu = 0 := by
        refine wroteOn_eq_zero fun w hw _ heq => hcpu ?_
        rw [KernelStep.run.inj (call_of_writes hw).1, heq]
      have hdropped : droppedOn (k.drops (.run cpu')) tgid p d cpu = 0 := by
        refine droppedOn_eq_zero fun r hr _ heq => hcpu ?_
        rw [KernelStep.run.inj (call_of_drops hr).1, heq]
      rw [hwrote, hdropped, pendingOn, calls_accountBytes, Function.update_of_ne (Ne.symm hcpu),
        pendingOn, Nat.add_zero]
  · have hcalls : (k.procnetSchedProcessExit t).calls = k.calls := by
      rw [procnetSchedProcessExit]
      split_ifs <;> rfl
    rw [pendingOn, hcalls]
    rfl

/-- The bytes that the calls under way have yet to add for a process. -/
def pending (k : Kernel n) (tgid : UInt32) (p : Protocol) (d : Dir) : ℕ :=
  ∑ cpu, k.pendingOn tgid p d cpu

theorem sum_wroteOn (w : Option (Write n)) (tgid : UInt32) (p : Protocol) (d : Dir) :
    ∑ cpu, wroteOn w tgid p d cpu = writtenFor w.toList tgid p d := by
  cases w with
  | none => simp [wroteOn, writtenFor]
  | some w => by_cases htgid : w.call.thread.tgid = tgid <;> simp [wroteOn, writtenFor, htgid]

theorem sum_droppedOn (r : Option (Drop n)) (tgid : UInt32) (p : Protocol) (d : Dir) :
    ∑ cpu, droppedOn r tgid p d cpu = droppedFor r.toList tgid p d := by
  cases r with
  | none => simp [droppedOn, droppedFor]
  | some r => by_cases htgid : r.call.thread.tgid = tgid <;> simp [droppedOn, droppedFor, htgid]

theorem sum_passesOn (l : KernelStep n) (tgid : UInt32) (p : Protocol) (d : Dir) :
    ∑ cpu, l.passesOn tgid p d cpu = l.passes tgid p d := by
  have h := sum_passedOn [l] tgid p d
  simpa [passedOn, passed] using h

/-- **The step lemma.** -/
theorem pending_step (h : k.step l = some k') (tgid : UInt32) (p : Protocol) (d : Dir) :
    k'.pending tgid p d + writtenFor (k.writes l).toList tgid p d +
        droppedFor (k.drops l).toList tgid p d =
      k.pending tgid p d + l.passes tgid p d := by
  have hsum := Finset.sum_congr rfl fun (cpu : Fin n) (_ : cpu ∈ Finset.univ) =>
    balance_step h tgid p d cpu
  simpa only [pending, Finset.sum_add_distrib, sum_wroteOn, sum_droppedOn, sum_passesOn] using hsum

/-! ### What an entry holds -/

/-- **An entry is written to by its own process**, since it was inserted. -/
def Owned (k : Kernel n) (ws : List (Write n)) : Prop :=
  ∀ tgid id, k.entryId tgid = some id → ∀ w ∈ ws, w.entry = id → w.call.thread.tgid = tgid

theorem Owned.step {ws : List (Write n)} (ho : k.Owned ws) (hk : k.Ledger ws)
    (h : k.step l = some k') : k'.Owned (ws ++ (k.writes l).toList) := by
  intro tgid id hid w hw hentry
  rcases List.mem_append.mp hw with hw | hw
  · rcases hk.lt_nextId_step h hid with ⟨-, rfl, -⟩ | ⟨hold, -⟩
    · exact absurd hentry (Nat.ne_of_lt (hk.fresh w hw))
    · exact ho tgid id hold w hw hentry
  · have hown := (entry_of_writes h (Option.mem_toList.mp hw)).1
    exact (hk.step h).inj _ _ id (hentry ▸ hown) hid

/-- What is counted for an entry has been added to it. -/
theorem counted_le_added (ws : List (Write n)) (id : ℕ) (p : Protocol) (d : Dir) :
    counted ws id p d ≤ added ws id p d := by
  refine (min_le_right _ _).trans ?_
  rw [List.sum_ofFn, added, List.sum_ofFn]
  exact Finset.sum_le_sum fun cpu _ => Nat.mod_le _ _

/-- What has been added to an entry of a process has been written for the process. -/
theorem added_le_writtenFor {ws : List (Write n)} {id : ℕ}
    (h : ∀ w ∈ ws, w.entry = id → w.call.thread.tgid = tgid) (p : Protocol) (d : Dir) :
    added ws id p d ≤ writtenFor ws tgid p d := by
  induction ws with
  | nil =>
    simp [added, addedOn, List.sum_ofFn]
  | cons w ws ih =>
    obtain ⟨hw, hws⟩ := List.forall_mem_cons.mp h
    have hone : added [w] id p d ≤ writtenFor [w] tgid p d := by
      simp only [added, List.sum_ofFn, addedOn_singleton, writtenFor, List.map_cons, List.map_nil,
        List.sum_singleton]
      by_cases hid : w.entry = id
      · simp [hid, hw hid]
      · simp [hid]
    have hsplit := added_append [w] ws id p d
    have hsplit' := writtenFor_append [w] ws tgid p d
    rw [List.singleton_append] at hsplit hsplit'
    have hrest := ih hws
    omega

/-- **What the daemon sees of an entry** is a part of what was written for its process. -/
theorem counter_merged_le {ws : List (Write n)} (hk : k.Ledger ws) (ho : k.Owned ws)
    {entry : Entry n} (hentry : k.stats.lookup tgid = some entry) (p : Protocol) (d : Dir) :
    ((mergeProcStats (List.ofFn entry.values)).counter p d).toNat ≤ writtenFor ws tgid p d := by
  have hid : k.entryId tgid = some entry.id := entryId_eq_some.mpr ⟨entry, hentry, rfl⟩
  rw [hk.counter_merged hentry p d]
  exact (counted_le_added ws entry.id p d).trans (added_le_writtenFor (ho tgid entry.id hid) p d)

/-! ### Over a run -/

/-- **The books**: the steps of a run, with what was written and what was dropped in it. -/
structure Books (k : Kernel n) (ls : List (KernelStep n)) (ws : List (Write n))
    (ds : List (Drop n)) : Prop where
  ledger : k.Ledger ws
  owned : k.Owned ws
  balance : ∀ tgid p d, passed ls tgid p d =
    writtenFor ws tgid p d + droppedFor ds tgid p d + k.pending tgid p d

theorem books_boot : (boot : Kernel n).Books [] [] [] where
  ledger := ledger_boot
  owned := by simp [Owned]
  balance tgid p d := by simp [passed, writtenFor, droppedFor, pending, pendingOn, boot]

theorem Books.step {ls : List (KernelStep n)} {ws : List (Write n)} {ds : List (Drop n)}
    (hb : k.Books ls ws ds) (h : k.step l = some k') :
    k'.Books (ls ++ [l]) (ws ++ (k.writes l).toList) (ds ++ (k.drops l).toList) where
  ledger := hb.ledger.step h
  owned := hb.owned.step hb.ledger h
  balance tgid p d := by
    have hpassed : passed (ls ++ [l]) tgid p d = passed ls tgid p d + l.passes tgid p d := by
      simp [passed]
    have hstep := pending_step h tgid p d
    have hold := hb.balance tgid p d
    rw [hpassed, writtenFor_append, droppedFor_append]
    omega

/-- **The books of a run.** -/
theorem books_exec {ls : List (KernelStep n)} (h : exec step boot ls = some k) :
    k.Books ls (observe step writes boot ls) (observe step drops boot ls) := by
  refine exec_concat_rec (R := fun ls k => k.Books ls (observe step writes boot ls)
    (observe step drops boot ls)) books_boot (fun ls l k k' hk hb hs => ?_) h
  rw [observe_concat hk hs, observe_concat hk hs]
  exact hb.step hs

/-- A call that works on the entry of its process drops nothing. -/
theorem drops_of_tracks (hk : k.Tracks tgid) : ∀ r ∈ k.drops l, r.call.thread.tgid ≠ tgid := by
  rintro r hr rfl
  obtain ⟨rfl, hc⟩ := call_of_drops hr
  have hfits := hk r.cpu r.call hc rfl
  rw [drops, Option.mem_def.mp hc, Option.bind_some] at hr
  cases hpc : r.call.pc with
  | update id =>
    rw [hpc] at hfits
    simp only [hpc, if_pos (show k.entryId r.call.thread.tgid = some id from hfits)] at hr
    cases hr
  | lookupAgain =>
    rw [hpc] at hfits
    simp only [hpc, if_neg (show ¬ k.entryId r.call.thread.tgid = none from hfits)] at hr
    cases hr
  | lookup => simp [hpc] at hr
  | insert => simp [hpc] at hr
  | reserve id => simp [hpc] at hr
  | submit id => simp [hpc] at hr

/-- A run that never deletes the entry of a process, and has room for it, drops nothing. -/
theorem droppedFor_of_keeps {ls : List (KernelStep n)} (h : exec step boot ls = some k)
    (hkeeps : Meets step (Keeps tgid) boot ls) (p : Protocol) (d : Dir) :
    droppedFor (observe step drops boot ls) tgid p d = 0 := by
  have hrun : k.Tracks tgid ∧ ∀ r ∈ observe step drops boot ls, r.call.thread.tgid ≠ tgid := by
    refine exec_observe (C := Keeps tgid)
      (R := fun k (ds : List (Drop n)) => k.Tracks tgid ∧ ∀ r ∈ ds, r.call.thread.tgid ≠ tgid)
      (fun k l k' ds hl hk hs => ⟨hk.1.step hl hs, fun r hr => ?_⟩) hkeeps
      ⟨by simp [Tracks, boot], by simp⟩ h
    rcases List.mem_append.mp hr with hr | hr
    · exact hk.2 r hr
    · exact drops_of_tracks hk.1 r (Option.mem_toList.mp hr)
  refine List.sum_eq_zero fun a ha => ?_
  obtain ⟨r, hr, rfl⟩ := List.mem_map.mp ha
  exact if_neg (hrun.2 r hr)

end Kernel

/-- **Every byte is accounted for**: in every run of any number of threads and CPUs, with exits, a
full map, and calls that race, the bytes that calls were passed for a process are those that have
been added to its entries, those that were dropped, and those of the calls under way. What the
daemon would see of the process now is a part of the first, also if its entry is not the first
one; and nothing is dropped for a process in a run in which its entry is not deleted and `STATS`
has room for it. -/
theorem bytes_accounted {n : ℕ} {ls : List (KernelStep n)} {k : Kernel n}
    (h : exec Kernel.step .boot ls = some k) (tgid : UInt32) (p : Protocol) (d : Dir) :
    passed ls tgid p d = writtenFor (observe Kernel.step Kernel.writes .boot ls) tgid p d +
        droppedFor (observe Kernel.step Kernel.drops .boot ls) tgid p d + k.pending tgid p d ∧
      (∀ entry, k.stats.lookup tgid = some entry →
        ((mergeProcStats (List.ofFn entry.values)).counter p d).toNat ≤
          writtenFor (observe Kernel.step Kernel.writes .boot ls) tgid p d) ∧
      (Meets Kernel.step (Kernel.Keeps tgid) .boot ls →
        droppedFor (observe Kernel.step Kernel.drops .boot ls) tgid p d = 0) := by
  have hb := Kernel.books_exec h
  exact ⟨hb.balance tgid p d, fun entry hentry => Kernel.counter_merged_le hb.ledger hb.owned
    hentry p d, fun hkeeps => Kernel.droppedFor_of_keeps h hkeeps p d⟩

/-- A thread is about to add its bytes when the leader of its process exits; then it sends more,
and is about to add this. -/
def exitRace : List (KernelStep 1) :=
  [.spawn (leader 7), .spawn ⟨8, 7⟩, .enter soleCpu (leader 7) default 100 0 .tcp, .run soleCpu,
    .run soleCpu, .run soleCpu, .run soleCpu, .enter soleCpu ⟨8, 7⟩ default 30 0 .tcp,
    .run soleCpu, .exit (leader 7), .run soleCpu, .enter soleCpu ⟨8, 7⟩ default 5 0 .tcp,
    .run soleCpu]

/-- Of 135 bytes, 100 were written, 30 dropped, and 5 are under way. -/
theorem bytes_accounted_exit_race :
    ∃ k, exec Kernel.step .boot exitRace = some k ∧
      135 = writtenFor (observe Kernel.step Kernel.writes .boot exitRace) 7 .tcp .sent +
        30 + k.pending 7 .tcp .sent := by
  obtain ⟨k, hk, -⟩ := exists_exec_of_any Kernel.step .boot exitRace (fun _ => true)
    (by decide +kernel)
  have hpassed : passed exitRace 7 .tcp .sent = 135 := by decide +kernel
  have hdropped :
      droppedFor (observe Kernel.step Kernel.drops .boot exitRace) 7 .tcp .sent = 30 := by
    decide +kernel
  obtain ⟨hbalance, -⟩ := bytes_accounted hk 7 .tcp .sent
  rw [hpassed, hdropped] at hbalance
  exact ⟨k, hk, hbalance⟩

end Procnet
