import Procnet.Core.Stats
import Procnet.Lib.BoundedMap
import Procnet.Lib.Trace

/-!
# The kernel side

The program of `bpf/procnet.bpf.c`, with what it needs of the system it is attached
to: threads that start and exit, the per-CPU hash `STATS` and the ring buffer `EVENTS`.

A step (`Kernel.step`) starts or ends a thread, starts a call of `account_bytes` on a
CPU, or runs such a call up to and including its next operation on a map; which one
happens next is up to the environment, so that calls on different CPUs interleave at the
granularity of the map operations. A CPU runs at most one call at a time, and a call does
not migrate. What the model takes from the kernel is what its helpers promise:

* an insertion with `BPF_NOEXIST` fails if the key is there or the map is full, and sets
  the value of the current CPU and clears those of all others;
* a pointer to a value can be used while the call that looked it up runs;
* a reservation in the ring buffer fails if the records that have not been consumed yet
  would outgrow it.

One thing is assumed, and not promised: an update through such a pointer is not seen by
anyone once the entry has been deleted, not even if its key is inserted again. `STATS` is
preallocated, so that the element of a deleted entry can hold another one at once, which
a late update would then change. Entries carry a number that tells them apart
(`Entry.id`), and an update whose entry is gone is lost.

The command name a start event carries is left out: the daemon prefers what it finds
under `/proc`, so that the name an event arrives with is up to the environment.
-/

namespace Procnet

open Lib

/-! ### Threads and calls -/

/-- A thread, as `bpf_get_current_pid_tgid` identifies it. -/
structure Thread where
  pid : UInt32
  tgid : UInt32
  deriving DecidableEq, Repr

/-- The leader of a thread group. -/
def leader (tgid : UInt32) : Thread := ⟨tgid, tgid⟩

/-- The next map operation of a call of `account_bytes`. -/
inductive Pc where
  | lookup : Pc
  /-- The call updates the entry it has found. -/
  | update (id : ℕ) : Pc
  | insert : Pc
  /-- The call has inserted an entry, and is to reserve a record for its start event. -/
  | reserve (id : ℕ) : Pc
  /-- The call has reserved a record, and is to submit it. -/
  | submit (id : ℕ) : Pc
  | lookupAgain : Pc
  deriving DecidableEq, Repr

/-- The entry that a call has inserted and whose start event it has yet to emit. -/
def Pc.announces : Pc → Option ℕ
  | .reserve id | .submit id => some id
  | .lookup | .update _ | .insert | .lookupAgain => none

/-- A call of `account_bytes`. -/
structure Call where
  thread : Thread
  addr : StatsAddr
  sent : UInt64
  recv : UInt64
  protocol : Protocol
  pc : Pc
  deriving DecidableEq, Repr

/-! ### The maps -/

/-- Adds to the counters of a protocol. They wrap around. -/
def updateStats (stats : ProcStats) (protocol : Protocol) (sent recv : UInt64)
    (addr : StatsAddr) : ProcStats :=
  match protocol with
  | .tcp =>
    { stats with tcp := ⟨⟨stats.tcp.bytes.sent + sent, stats.tcp.bytes.recv + recv⟩, addr⟩ }
  | .udp =>
    { stats with udp := ⟨⟨stats.udp.bytes.sent + sent, stats.udp.bytes.recv + recv⟩, addr⟩ }

/-- An entry of `STATS`: a value per CPU. -/
structure Entry (n : ℕ) where
  /-- Tells an entry from those that its key had before. -/
  id : ℕ
  values : Fin n → ProcStats

namespace Entry

variable {n : ℕ}

/-- The entry an insertion creates: the other CPUs start from zero. -/
def create (id : ℕ) (cpu : Fin n) (value : ProcStats) : Entry n :=
  ⟨id, Function.update (fun _ => default) cpu value⟩

/-- Adds to the counters of a CPU. -/
def update (entry : Entry n) (cpu : Fin n) (c : Call) : Entry n :=
  { entry with
    values := Function.update entry.values cpu
      (updateStats (entry.values cpu) c.protocol c.sent c.recv c.addr) }

@[simp] theorem id_create (id : ℕ) (cpu : Fin n) (value : ProcStats) :
    (create id cpu value).id = id := rfl

theorem values_create (id : ℕ) (cpu cpu' : Fin n) (value : ProcStats) :
    (create id cpu value).values cpu' = if cpu' = cpu then value else default := by
  simp only [create, Function.update_apply]

theorem values_update (entry : Entry n) (cpu cpu' : Fin n) (c : Call) :
    (entry.update cpu c).values cpu' =
      if cpu' = cpu then updateStats (entry.values cpu) c.protocol c.sent c.recv c.addr
      else entry.values cpu' := by
  simp only [update, Function.update_apply]

end Entry

/-- A record of `EVENTS`. -/
structure StartRecord where
  tgid : UInt32
  /-- The entry it announces. -/
  entry : ℕ
  /-- Whether it has been submitted; the consumer waits for it otherwise. -/
  submitted : Bool
  deriving DecidableEq, Repr

/-- Bytes of the ring buffer. -/
def EVENTS_SIZE : ℕ := 4096

/-- Bytes of a `ProcStartEvent` in the ring buffer: a tgid and a command name. -/
def sizeOfProcStartEvent : ℕ := 4 + 16

/-- Bytes of the header of a record. -/
def BPF_RINGBUF_HDR_SZ : ℕ := 8

/-- Bytes a start event takes in the ring buffer: records are aligned to eight bytes. -/
def recordSize : ℕ := (sizeOfProcStartEvent + BPF_RINGBUF_HDR_SZ + 7) / 8 * 8

/-- Whether a reservation succeeds: the positions of the producer and the consumer must
not differ by more than the mask of the ring. -/
def ringHasRoom (events : List StartRecord) : Prop :=
  (events.length + 1) * recordSize ≤ EVENTS_SIZE - 1

instance (events : List StartRecord) : Decidable (ringHasRoom events) :=
  inferInstanceAs (Decidable (_ ≤ _))

/-- The maps, the threads, and the calls under way. -/
structure Kernel (n : ℕ) where
  /-- The threads that have not exited. -/
  live : List Thread
  stats : BoundedMap UInt32 (Entry n) MAP_SIZE
  events : List StartRecord
  /-- The call each CPU runs. -/
  calls : Fin n → Option Call
  /-- The number of the next entry. -/
  nextId : ℕ

/-- What can happen in the kernel. -/
inductive KernelStep (n : ℕ) where
  /-- A thread starts, of a new process or of one that runs. -/
  | spawn (t : Thread) : KernelStep n
  /-- A probe calls `account_bytes` for the current thread. -/
  | enter (cpu : Fin n) (t : Thread) (addr : StatsAddr) (sent recv : UInt64)
      (protocol : Protocol) : KernelStep n
  /-- The call of a CPU runs up to and including its next map operation. -/
  | run (cpu : Fin n) : KernelStep n
  /-- A thread exits. -/
  | exit (t : Thread) : KernelStep n
  deriving DecidableEq

/-- A call that inserts an entry, from its first lookup to the submission of its start
event. -/
def firstCall {n : ℕ} (cpu : Fin n) (t : Thread) (sent : UInt64) : List (KernelStep n) :=
  [.enter cpu t default sent 0 .tcp, .run cpu, .run cpu, .run cpu, .run cpu]

/-- The CPU of a machine that has one. -/
def soleCpu : Fin 1 := Fin.last 0

namespace Kernel

variable {n : ℕ}

/-- The kernel when the program is loaded. The threads that run already are started first. -/
def boot : Kernel n := ⟨[], .empty, [], fun _ => none, 0⟩

/-- What the daemon's lookups in `STATS` return. -/
def statsMap (e : Endian) (k : Kernel n) : StatsMap :=
  .ofValues e fun pid => (k.stats.lookup pid).map fun entry => List.ofFn entry.values

/-- The call of a CPU goes on. -/
def goto (k : Kernel n) (cpu : Fin n) (c : Call) (pc : Pc) : Kernel n :=
  { k with calls := Function.update k.calls cpu (some { c with pc := pc }) }

/-- The call of a CPU returns. -/
def ret (k : Kernel n) (cpu : Fin n) : Kernel n :=
  { k with calls := Function.update k.calls cpu none }

/-- The next map operation of `account_bytes`. -/
def accountBytes (k : Kernel n) (cpu : Fin n) (c : Call) : Kernel n :=
  let tgid := c.thread.tgid
  match c.pc with
  | .lookup =>
    match k.stats.lookup tgid with
    | some currStat => k.goto cpu c (.update currStat.id)
    | none => k.goto cpu c .insert
  | .update id =>
    { k.ret cpu with
      stats := k.stats.modify tgid fun entry =>
        if entry.id = id then entry.update cpu c else entry }
  | .insert =>
    let newStat := updateStats default c.protocol c.sent c.recv c.addr
    match k.stats.insertNew tgid (.create k.nextId cpu newStat) with
    | some stats => { k.goto cpu c (.reserve k.nextId) with stats := stats, nextId := k.nextId + 1 }
    | none => k.goto cpu c .lookupAgain
  | .reserve id =>
    if ringHasRoom k.events then
      { k.goto cpu c (.submit id) with events := k.events ++ [⟨tgid, id, false⟩] }
    else k.ret cpu
  | .submit id =>
    { k.ret cpu with
      events := k.events.map fun r => if r.entry = id then { r with submitted := true } else r }
  | .lookupAgain =>
    match k.stats.lookup tgid with
    | some currStat => k.goto cpu c (.update currStat.id)
    | none => k.ret cpu

/-- Whether a thread is in a call on some CPU. -/
def Busy (k : Kernel n) (t : Thread) : Prop := ∃ cpu, ∃ c ∈ k.calls cpu, c.thread = t

/-- Whether a thread can start: its pid must be free, both as a pid and as a tgid, and a
thread that is no leader starts in a process that runs. -/
def CanSpawn (k : Kernel n) (t : Thread) : Prop :=
  (∀ u ∈ k.live, u.pid ≠ t.pid ∧ u.tgid ≠ t.pid) ∧
    (t.pid = t.tgid ∨ ∃ u ∈ k.live, u.tgid = t.tgid)

instance (k : Kernel n) (t : Thread) : Decidable (k.Busy t) :=
  inferInstanceAs (Decidable (∃ _, ∃ _ ∈ _, _))

instance (k : Kernel n) (t : Thread) : Decidable (k.CanSpawn t) :=
  inferInstanceAs (Decidable (_ ∧ _))

/-- The probe of `sched_process_exit`, with the exiting thread as the current one: it fires
for threads too, and deletes only when the leader of the group exits. -/
def procnetSchedProcessExit (k : Kernel n) (t : Thread) : Kernel n :=
  if t.pid ≠ t.tgid then k else { k with stats := k.stats.erase t.tgid }

/-- One step of the kernel. -/
def step (k : Kernel n) : KernelStep n → Option (Kernel n)
  | .spawn t => if k.CanSpawn t then some { k with live := t :: k.live } else none
  | .enter cpu t addr sent recv protocol =>
    if t ∈ k.live ∧ ¬ k.Busy t ∧ k.calls cpu = none then
      some { k with
        calls := Function.update k.calls cpu (some ⟨t, addr, sent, recv, protocol, .lookup⟩) }
    else none
  | .run cpu => (k.calls cpu).map (k.accountBytes cpu)
  | .exit t =>
    if t ∈ k.live ∧ ¬ k.Busy t then
      some { k.procnetSchedProcessExit t with live := k.live.filter (· ≠ t) }
    else none

variable {k k' : Kernel n}

/-! ### What a step can do -/

/-- A call goes on, or returns, without a change to the maps. -/
def Quiet (c : Call) (c' : Option Call) : Prop :=
  c.pc.announces = none ∧ ∀ d ∈ c', d.thread = c.thread ∧ d.pc.announces = none

/-- **What the next map operation of a call can do.** -/
theorem accountBytes_cases (k : Kernel n) (cpu : Fin n) (c : Call) :
    (∃ c', Quiet c c' ∧
      k.accountBytes cpu c = { k with calls := Function.update k.calls cpu c' }) ∨
    (∃ id, c.pc = .update id ∧
      k.accountBytes cpu c = { k.ret cpu with
        stats := k.stats.modify c.thread.tgid fun entry =>
          if entry.id = id then entry.update cpu c else entry }) ∨
    (∃ stats, c.pc = .insert ∧
      k.stats.insertNew c.thread.tgid (.create k.nextId cpu
        (updateStats default c.protocol c.sent c.recv c.addr)) = some stats ∧
      k.accountBytes cpu c = { k.goto cpu c (.reserve k.nextId) with
        stats := stats, nextId := k.nextId + 1 }) ∨
    (∃ id, c.pc = .reserve id ∧ ringHasRoom k.events ∧
      k.accountBytes cpu c = { k.goto cpu c (.submit id) with
        events := k.events ++ [⟨c.thread.tgid, id, false⟩] }) ∨
    (∃ id, c.pc = .reserve id ∧ ¬ ringHasRoom k.events ∧ k.accountBytes cpu c = k.ret cpu) ∨
    (∃ id, c.pc = .submit id ∧
      k.accountBytes cpu c = { k.ret cpu with
        events := k.events.map fun r =>
          if r.entry = id then { r with submitted := true } else r }) := by
  have hquiet : ∀ pc, c.pc.announces = none → pc.announces = none →
      Quiet c (some { c with pc := pc }) := by
    intro pc hc hpc
    refine ⟨hc, fun d hd => ?_⟩
    obtain rfl := Option.mem_some.mp hd
    exact ⟨rfl, hpc⟩
  have hret : c.pc.announces = none → Quiet c none := fun hc => ⟨hc, by simp⟩
  simp only [accountBytes]
  cases hpc : c.pc with
  | lookup =>
    have hc : c.pc.announces = none := by rw [hpc]; rfl
    cases hlook : k.stats.lookup c.thread.tgid with
    | some entry => exact Or.inl ⟨_, hquiet (.update entry.id) hc rfl, rfl⟩
    | none => exact Or.inl ⟨_, hquiet .insert hc rfl, rfl⟩
  | update id => exact Or.inr (Or.inl ⟨id, rfl, rfl⟩)
  | insert =>
    have hc : c.pc.announces = none := by rw [hpc]; rfl
    cases hins : k.stats.insertNew c.thread.tgid (.create k.nextId cpu
        (updateStats default c.protocol c.sent c.recv c.addr)) with
    | some stats => exact Or.inr (Or.inr (Or.inl ⟨stats, rfl, rfl, rfl⟩))
    | none => exact Or.inl ⟨_, hquiet .lookupAgain hc rfl, rfl⟩
  | reserve id =>
    by_cases hroom : ringHasRoom k.events
    · exact Or.inr (Or.inr (Or.inr (Or.inl ⟨id, rfl, hroom, if_pos hroom⟩)))
    · exact Or.inr (Or.inr (Or.inr (Or.inr (Or.inl ⟨id, rfl, hroom, if_neg hroom⟩))))
  | submit id => exact Or.inr (Or.inr (Or.inr (Or.inr (Or.inr ⟨id, rfl, rfl⟩))))
  | lookupAgain =>
    have hc : c.pc.announces = none := by rw [hpc]; rfl
    cases hlook : k.stats.lookup c.thread.tgid with
    | some entry => exact Or.inl ⟨_, hquiet (.update entry.id) hc rfl, rfl⟩
    | none => exact Or.inl ⟨none, hret hc, rfl⟩

/-- **What a step can do.** -/
theorem step_cases {l : KernelStep n} (h : k.step l = some k') :
    (∃ t, l = .spawn t ∧ k.CanSpawn t ∧ k' = { k with live := t :: k.live }) ∨
    (∃ cpu t addr sent recv protocol, l = .enter cpu t addr sent recv protocol ∧
      t ∈ k.live ∧ ¬ k.Busy t ∧ k.calls cpu = none ∧
      k' = { k with
        calls := Function.update k.calls cpu (some ⟨t, addr, sent, recv, protocol, .lookup⟩) }) ∨
    (∃ cpu c, l = .run cpu ∧ k.calls cpu = some c ∧ k' = k.accountBytes cpu c) ∨
    (∃ t, l = .exit t ∧ t ∈ k.live ∧ ¬ k.Busy t ∧
      k' = { k.procnetSchedProcessExit t with live := k.live.filter (· ≠ t) }) := by
  cases l with
  | spawn t =>
    obtain ⟨hspawn, hk⟩ := Option.ite_none_right_eq_some.mp h
    exact Or.inl ⟨t, rfl, hspawn, (Option.some.inj hk).symm⟩
  | enter cpu t addr sent recv protocol =>
    obtain ⟨⟨hlive, hbusy, hfree⟩, hk⟩ := Option.ite_none_right_eq_some.mp h
    exact Or.inr (Or.inl ⟨cpu, t, addr, sent, recv, protocol, rfl, hlive, hbusy, hfree,
      (Option.some.inj hk).symm⟩)
  | run cpu =>
    obtain ⟨c, hc, rfl⟩ := Option.map_eq_some_iff.mp h
    exact Or.inr (Or.inr (Or.inl ⟨cpu, c, rfl, hc, rfl⟩))
  | exit t =>
    obtain ⟨⟨hlive, hbusy⟩, hk⟩ := Option.ite_none_right_eq_some.mp h
    exact Or.inr (Or.inr (Or.inr ⟨t, rfl, hlive, hbusy, (Option.some.inj hk).symm⟩))

/-- A thread is there after a step if the step starts it, or if it was there before and
the step does not end it. -/
theorem mem_live_step {l : KernelStep n} (h : k.step l = some k') (t : Thread) :
    t ∈ k'.live ↔ l = .spawn t ∨ t ∈ k.live ∧ l ≠ .exit t := by
  rcases step_cases h with ⟨u, rfl, -, rfl⟩ |
    ⟨cpu, u, addr, sent, recv, protocol, rfl, -, -, -, rfl⟩ |
    ⟨cpu, c, rfl, -, rfl⟩ | ⟨u, rfl, -, -, rfl⟩
  · simp only [List.mem_cons, KernelStep.spawn.injEq, reduceCtorEq, not_false_eq_true, ne_eq,
      and_true]
    exact or_congr_left eq_comm
  · simp
  · rcases accountBytes_cases k cpu c with ⟨c', -, heq⟩ | ⟨id, -, heq⟩ | ⟨stats, -, -, heq⟩ |
      ⟨id, -, -, heq⟩ | ⟨id, -, -, heq⟩ | ⟨id, -, heq⟩ <;> simp [heq, goto, ret]
  · simp only [List.mem_filter, decide_eq_true_eq, KernelStep.exit.injEq, reduceCtorEq, false_or,
      ne_eq]
    exact and_congr_right fun _ => not_congr eq_comm

/-- **A call belongs to the thread that started it**, which was there. -/
theorem mem_calls_step {l : KernelStep n} (h : k.step l = some k') {cpu : Fin n} {c : Call}
    (hc : c ∈ k'.calls cpu) :
    (c ∈ k.calls cpu ∧ l ≠ .run cpu) ∨
    (c.thread ∈ k.live ∧ c.pc = .lookup ∧
      l = .enter cpu c.thread c.addr c.sent c.recv c.protocol) ∨
    ∃ d ∈ k.calls cpu, l = .run cpu ∧ d.thread = c.thread := by
  have hupdate : ∀ {cpu' : Fin n} {o : Option Call}, c ∈ Function.update k.calls cpu' o cpu →
      (c ∈ k.calls cpu ∧ cpu' ≠ cpu) ∨ (cpu' = cpu ∧ c ∈ o) := by
    intro cpu' o hmem
    by_cases hcpu : cpu' = cpu
    · subst hcpu
      exact Or.inr ⟨rfl, by simpa using hmem⟩
    · exact Or.inl ⟨by simpa [Function.update_of_ne (Ne.symm hcpu)] using hmem, hcpu⟩
  rcases step_cases h with ⟨u, rfl, -, rfl⟩ |
    ⟨cpu', u, addr, sent, recv, protocol, rfl, hlive, -, -, rfl⟩ | ⟨cpu', d, rfl, hd, rfl⟩ |
    ⟨u, rfl, -, -, rfl⟩
  · exact Or.inl ⟨hc, nofun⟩
  · rcases hupdate hc with ⟨hold, -⟩ | ⟨rfl, hnew⟩
    · exact Or.inl ⟨hold, nofun⟩
    · obtain rfl := Option.mem_some.mp hnew
      exact Or.inr (Or.inl ⟨hlive, rfl, rfl⟩)
  · have hrun : ∀ {o : Option Call}, c ∈ Function.update k.calls cpu' o cpu →
        (∀ c' ∈ o, c'.thread = d.thread) →
        (c ∈ k.calls cpu ∧ KernelStep.run cpu' ≠ .run cpu) ∨
          ∃ d ∈ k.calls cpu, KernelStep.run cpu' = .run cpu ∧ d.thread = c.thread := by
      intro o hmem ho
      rcases hupdate hmem with ⟨hold, hcpu⟩ | ⟨rfl, hnew⟩
      · exact Or.inl ⟨hold, by simpa using hcpu⟩
      · exact Or.inr ⟨d, hd, rfl, (ho c hnew).symm⟩
    refine Or.imp_right Or.inr ?_
    rcases accountBytes_cases k cpu' d with ⟨c', hq, heq⟩ | ⟨id, -, heq⟩ | ⟨stats, -, -, heq⟩ |
      ⟨id, -, -, heq⟩ | ⟨id, -, -, heq⟩ | ⟨id, -, heq⟩ <;> rw [heq] at hc
    · exact hrun hc fun c' hc' => (hq.2 c' hc').1
    · exact hrun hc (by simp)
    · exact hrun hc (by simp)
    · exact hrun hc (by simp)
    · exact hrun hc (by simp)
    · exact hrun hc (by simp)
  · refine Or.inl ⟨?_, nofun⟩
    rw [procnetSchedProcessExit] at hc
    split_ifs at hc <;> exact hc

/-- A call is left alone by all steps but its own. -/
theorem calls_step {l : KernelStep n} (h : k.step l = some k') {cpu : Fin n} {c : Call}
    (hc : c ∈ k.calls cpu) (hl : l ≠ .run cpu) : c ∈ k'.calls cpu := by
  rcases step_cases h with ⟨u, rfl, -, rfl⟩ |
    ⟨cpu', u, addr, sent, recv, protocol, rfl, -, -, hfree, rfl⟩ |
    ⟨cpu', d, rfl, -, rfl⟩ | ⟨u, rfl, -, -, rfl⟩
  · exact hc
  · have hcpu : cpu ≠ cpu' := by
      rintro rfl
      rw [hfree] at hc
      cases hc
    simpa [hcpu] using hc
  · have hcpu : cpu ≠ cpu' := fun heq => hl (by rw [heq])
    rcases accountBytes_cases k cpu' d with ⟨c', -, heq⟩ | ⟨id, -, heq⟩ | ⟨stats, -, -, heq⟩ |
      ⟨id, -, -, heq⟩ | ⟨id, -, -, heq⟩ | ⟨id, -, heq⟩ <;> simpa [heq, goto, ret, hcpu] using hc
  · rw [procnetSchedProcessExit]
    split_ifs <;> exact hc

/-! ### The entry of a process -/

/-- The entry that a process has in `STATS`. -/
def entryId (k : Kernel n) (tgid : UInt32) : Option ℕ := (k.stats.lookup tgid).map Entry.id

theorem entryId_eq_none {tgid : UInt32} : k.entryId tgid = none ↔ k.stats.lookup tgid = none :=
  Option.map_eq_none_iff

/-- A step that inserts an entry for a process. -/
def Inserts (k : Kernel n) (l : KernelStep n) (tgid : UInt32) : Prop :=
  ∃ cpu, ∃ c ∈ k.calls cpu, l = .run cpu ∧ c.pc = .insert ∧ c.thread.tgid = tgid ∧
    k.stats.lookup tgid = none ∧ ¬ k.stats.full

/-- An insertion gives the entry a new number. -/
theorem entryId_accountBytes_insert {cpu : Fin n} {c : Call}
    {stats : BoundedMap UInt32 (Entry n) MAP_SIZE}
    (hins : k.stats.insertNew c.thread.tgid (.create k.nextId cpu
      (updateStats default c.protocol c.sent c.recv c.addr)) = some stats) (tgid : UInt32) :
    (stats.lookup tgid).map Entry.id =
      if tgid = c.thread.tgid then some k.nextId else k.entryId tgid := by
  rw [(BoundedMap.insertNew_eq_some hins).2.2 tgid]
  split_ifs <;> rfl

/-- An update keeps every entry in place. -/
theorem entryId_modify (stats : BoundedMap UInt32 (Entry n) MAP_SIZE) (key : UInt32)
    {f : Entry n → Entry n} (hf : ∀ entry, (f entry).id = entry.id) (tgid : UInt32) :
    ((stats.modify key f).lookup tgid).map Entry.id = (stats.lookup tgid).map Entry.id := by
  rw [BoundedMap.lookup_modify]
  split_ifs with htgid
  · rw [htgid, Option.map_map]
    exact congrArg (fun g => (stats.lookup key).map g) (funext hf)
  · rfl

/-- **What a step does to the entry of a process**: it inserts one with a new number,
deletes it, or leaves it in place. -/
theorem entryId_step {l : KernelStep n} (h : k.step l = some k') (tgid : UInt32) :
    (k.Inserts l tgid ∧ k.entryId tgid = none ∧ k'.entryId tgid = some k.nextId ∧
      k'.nextId = k.nextId + 1 ∧ k'.live = k.live) ∨
    (l = .exit (leader tgid) ∧ leader tgid ∈ k.live ∧ k'.entryId tgid = none) ∨
    (¬ k.Inserts l tgid ∧ l ≠ .exit (leader tgid) ∧ k'.entryId tgid = k.entryId tgid) := by
  by_cases hins : k.Inserts l tgid
  · refine Or.inl ⟨hins, ?_⟩
    obtain ⟨cpu, c, hc, rfl, hpc, rfl, hnone, hfull⟩ := hins
    obtain rfl : k.accountBytes cpu c = k' := by simpa [step, Option.mem_def.mp hc] using h
    obtain ⟨stats, hstats⟩ := Option.isSome_iff_exists.mp
      (BoundedMap.insertNew_isSome (v := Entry.create k.nextId cpu
        (updateStats default c.protocol c.sent c.recv c.addr)).mpr ⟨hnone, hfull⟩)
    have haccount : k.accountBytes cpu c = { k.goto cpu c (.reserve k.nextId) with
        stats := stats, nextId := k.nextId + 1 } := by
      simp only [accountBytes, hpc, hstats]
    rw [haccount]
    refine ⟨entryId_eq_none.mpr hnone, ?_, rfl, rfl⟩
    exact (entryId_accountBytes_insert hstats _).trans (if_pos rfl)
  · rcases step_cases h with ⟨t, rfl, -, rfl⟩ |
      ⟨cpu, t, addr, sent, recv, protocol, rfl, -, -, -, rfl⟩ |
      ⟨cpu, c, rfl, hc, rfl⟩ | ⟨t, rfl, hlive, -, rfl⟩
    · exact Or.inr (Or.inr ⟨hins, nofun, rfl⟩)
    · exact Or.inr (Or.inr ⟨hins, nofun, rfl⟩)
    · refine Or.inr (Or.inr ⟨hins, nofun, ?_⟩)
      rcases accountBytes_cases k cpu c with ⟨c', -, heq⟩ | ⟨id, -, heq⟩ |
        ⟨stats, hpc, hstats, heq⟩ | ⟨id, -, -, heq⟩ | ⟨id, -, -, heq⟩ | ⟨id, -, heq⟩
      · rw [heq]; rfl
      · rw [heq]
        refine entryId_modify _ _ (fun entry => ?_) tgid
        split_ifs <;> rfl
      · -- Another process inserts its entry.
        have htgid : tgid ≠ c.thread.tgid := by
          rintro rfl
          have hnew := BoundedMap.insertNew_eq_some hstats
          exact hins ⟨cpu, c, hc, rfl, hpc, rfl, hnew.1, hnew.2.1⟩
        rw [heq]
        exact (entryId_accountBytes_insert hstats tgid).trans (if_neg htgid)
      · rw [heq]; rfl
      · rw [heq]; rfl
      · rw [heq]; rfl
    · by_cases hleader : t = leader tgid
      · refine Or.inr (Or.inl ⟨by rw [hleader], hleader ▸ hlive, ?_⟩)
        rw [hleader]
        simp [entryId, procnetSchedProcessExit, leader]
      · -- The exit of another thread, or of the leader of another process.
        refine Or.inr (Or.inr ⟨hins, by simpa using hleader, ?_⟩)
        rw [entryId, procnetSchedProcessExit]
        split_ifs with hpid
        · rfl
        · have htgid : tgid ≠ t.tgid := by
            rintro rfl
            refine hleader ?_
            have hpid' := not_not.mp hpid
            cases t
            simp_all [leader]
          simp [htgid, entryId]

/-- Numbers are not used again. -/
theorem nextId_le_step {l : KernelStep n} (h : k.step l = some k') : k.nextId ≤ k'.nextId := by
  rcases step_cases h with ⟨u, rfl, -, rfl⟩ |
    ⟨cpu, u, addr, sent, recv, protocol, rfl, -, -, -, rfl⟩ |
    ⟨cpu, c, rfl, -, rfl⟩ | ⟨u, rfl, -, -, rfl⟩
  · exact Nat.le_refl _
  · exact Nat.le_refl _
  · rcases accountBytes_cases k cpu c with ⟨c', -, heq⟩ | ⟨id, -, heq⟩ | ⟨stats, -, -, heq⟩ |
      ⟨id, -, -, heq⟩ | ⟨id, -, -, heq⟩ | ⟨id, -, heq⟩ <;> simp [heq, goto, ret]
  · rw [procnetSchedProcessExit]
    split_ifs <;> exact Nat.le_refl _

theorem nextId_of_inserts {l : KernelStep n} (h : k.step l = some k') {tgid : UInt32}
    (hins : k.Inserts l tgid) : k'.nextId = k.nextId + 1 := by
  rcases entryId_step h tgid with ⟨-, -, -, hnext, -⟩ | ⟨rfl, -⟩ | ⟨hnot, -⟩
  · exact hnext
  · obtain ⟨_, _, _, hrun, -⟩ := hins
    cases hrun
  · exact absurd hins hnot

end Kernel

end Procnet
