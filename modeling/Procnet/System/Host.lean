import Procnet.System.Atomic
import Procnet.System.Reported
import Procnet.System.Shown

/-!
# From the kernel to the screen

`Service` takes the drained events and the contents of the stats map as they come. `System` knows
where they come from, but nothing of the threads that serve the clients. A `Host` is both: the
pieces of an iteration, between which the kernel goes on, and the threads of the daemon with their
clients. They share the collector, which is behind the lock of the shared state, and the iteration
holds this lock from its first piece to its last, while the threads that write to clients, and those
that read from them without having read a command, go on.

With the last piece, the iteration has built its snapshot: it is the one that `Service` builds from
the events that were drained and the map of what the lookups have found (`Host.Agree`). So each row
that a client shows is one that the kernel's map held at some moment of the run, and it reports no
more than what the calls of its process were passed (`shown_is_real`).
-/

namespace Procnet

open Lib

variable {n : ℕ} {e : Endian}

/-- The kernel, the daemon with all its threads, and its clients. -/
structure Host (n : ℕ) where
  service : Service
  system : System n
  /-- The events that the iteration under way has drained. -/
  drained : List ProcStartEvent
  /-- What its lookups have found. -/
  found : System.Found

/-- What can happen next. -/
inductive HostStep (n : ℕ) where
  /-- A step of the kernel, or a piece of an iteration of the main loop. -/
  | system (l : SystemStep n) : HostStep n
  /-- A step of another thread of the daemon, or of a client. -/
  | service (l : ServiceStep) : HostStep n

/-- The step of the kernel that a step is. -/
def HostStep.kernel? : HostStep n → Option (KernelStep n)
  | .system l => l.kernel?
  | .service _ => none

/-- The steps of the kernel in a run. -/
def hostKernelSteps (ls : List (HostStep n)) : List (KernelStep n) := ls.filterMap HostStep.kernel?

/-- Whether a step takes the lock of the shared state: a command has been read. -/
def Service.locks (s : Service) : ServiceStep → Bool
  | .reader i ok => (s.daemon.conns[i]?).any fun c => (c.step ok).2.isSome
  | .accept _ | .tick .. | .broadcast | .fan _ | .shutdown => false

namespace Host

/-- The host when the daemon starts. -/
def boot : Host n := ⟨.new, .boot, [], []⟩

/-- The collector, as the threads of the service find it behind the lock. -/
def stats (s : Host n) : StatsCollector := s.service.daemon.state.stats

/-- Whether a piece of an iteration can be next: it begins when the main loop has handed out the
last snapshot, and gets the lock. -/
def allowsPiece (s : Host n) : SystemStep n → Bool
  | .kernel _ => true
  | .reset => false
  | .tick => s.service.daemon.exit.isNone && s.service.waits && !s.service.daemon.poisoned
  | .drain _ | .drained | .apply | .collect | .visit | .finish => s.service.daemon.exit.isNone

/-- Whether a step of another thread can be next. While an iteration is under way, the lock is
taken, and the main loop does not look for a shutdown; it may fail before it begins an iteration,
and while it drains the ring buffer. -/
def allows (s : Host n) : ServiceStep → Bool
  | .reader i ok => s.system.phase = .idle || !s.service.locks (.reader i ok)
  | .tick drained _ => drained.isNone && (s.system.phase = .idle || s.system.phase = .draining)
  | .shutdown => s.system.phase = .idle
  | .accept _ | .broadcast | .fan _ => true

/-- What is remembered of the pieces of an iteration. -/
def remember (s : Host n) : SystemStep n → Host n
  | .tick => { s with drained := [], found := [] }
  | .drained => { s with drained := s.system.queue.map Drained.event }
  | .visit =>
    { s with
      found := s.found ++ (s.system.sweep.procs[s.system.sweep.idx]?.map fun i =>
        (i.pid, System.merged s.system.kernel i.pid)).toList }
  | .kernel _ | .reset | .drain _ | .apply | .collect | .finish => s

/-- The iteration, as the service takes it. -/
def iteration (e : Endian) (s : Host n) : ServiceStep :=
  .tick (some s.drained) (System.foundMap e s.found)

/-- The collector is shared: when no iteration is under way, it is as the service leaves it. -/
def share (s : Host n) (service : Service) : System n :=
  if s.system.phase = .idle then s.system.withStats service.daemon.state.stats else s.system

/-- One step of the host. -/
def step (e : Endian) (s : Host n) : HostStep n → Option (Host n)
  | .system l =>
    if s.allowsPiece l then
      (s.system.step e l).bind fun system =>
        match l with
        | .finish =>
          (s.service.step e (s.iteration e)).map fun service => { s with service, system }
        | _ => some { s.remember l with system }
    else none
  | .service l =>
    if s.allows l then
      (s.service.step e l).map fun service => { s with service, system := s.share service }
    else none

/-- The snapshot that a step builds. -/
def built (e : Endian) (s : Host n) : HostStep n → Option SnapshotData
  | .system .finish => s.service.built e (s.iteration e)
  | .system _ | .service _ => none

/-- The snapshots that a run has built. -/
def builtOf (e : Endian) (ls : List (HostStep n)) : List SnapshotData :=
  observe (step e) (built e) .boot ls

variable {s s' : Host n} {l : HostStep n}

/-- **What a step can do.** -/
theorem step_cases (h : s.step e l = some s') :
    (∃ l' system, l = .system l' ∧ l' ≠ .finish ∧ s.allowsPiece l' = true ∧
      s.system.step e l' = some system ∧ s' = { s.remember l' with system }) ∨
    (∃ system service, l = .system .finish ∧ s.system.step e .finish = some system ∧
      s.service.step e (s.iteration e) = some service ∧ s' = { s with service, system }) ∨
    (∃ l' service, l = .service l' ∧ s.allows l' = true ∧ s.service.step e l' = some service ∧
      s' = { s with service, system := s.share service }) := by
  cases l with
  | system l =>
    obtain ⟨hallows, h⟩ := Option.ite_none_right_eq_some.mp h
    obtain ⟨system, hsystem, h⟩ := Option.bind_eq_some_iff.mp h
    split at h
    case h_1 =>
      obtain ⟨service, hservice, rfl⟩ := Option.map_eq_some_iff.mp h
      exact Or.inr (Or.inl ⟨system, service, rfl, hsystem, hservice, rfl⟩)
    case h_2 hne =>
      exact Or.inl ⟨l, system, rfl, hne, hallows, hsystem, (Option.some.inj h).symm⟩
  | service l =>
    obtain ⟨hallows, h⟩ := Option.ite_none_right_eq_some.mp h
    obtain ⟨service, hservice, rfl⟩ := Option.map_eq_some_iff.mp h
    exact Or.inr (Or.inr ⟨l, service, rfl, hallows, hservice, rfl⟩)

/-- The main loop runs as long as it takes pieces. -/
theorem exit_of_finish (h : s.step e (.system .finish) = some s') :
    s.service.daemon.exit = none := by
  obtain ⟨hallows, -⟩ := Option.ite_none_right_eq_some.mp h
  exact Option.isNone_iff_eq_none.mp hallows

end Host

/-! ### The other threads -/

namespace Service

variable {s s' : Service} {l : ServiceStep}

theorem waits_iff : s.waits = true ↔
    s.shared = none ∧ ∃ senders, s.fanout.senders = .unlocked senders := by
  unfold waits
  split
  case h_1 senders hshared hsenders => exact iff_of_true rfl ⟨hshared, senders, hsenders⟩
  case h_2 hne =>
    refine iff_of_false (by decide) ?_
    rintro ⟨hshared, senders, hsenders⟩
    exact hne senders hshared hsenders

/-- A thread that does not take the lock leaves what is behind it alone. -/
theorem state_of_not_locks {i : ℕ} {ok : Bool} {daemon : Daemon}
    (hs : s.daemon.step e (.client i ok) = some daemon) (hl : s.locks (.reader i ok) = false) :
    daemon.poisoned = s.daemon.poisoned ∧ daemon.state = s.daemon.state := by
  rcases Daemon.step_cases hs with ⟨_, hl, -⟩ | ⟨j, ok', c, hj, hc, rfl⟩ | ⟨_, _, hl, -⟩ | ⟨hl, -⟩
  · cases hl
  · cases hj
    rw [locks, hc, Option.any_some] at hl
    rcases hstep : c.step ok with ⟨c', _ | msg⟩
    · rw [Daemon.clientStep, hstep]
      exact ⟨rfl, rfl⟩
    · rw [hstep] at hl
      cases hl
  · cases hl
  · cases hl

/-- **The other threads leave an iteration alone**, as long as they do not take its lock. -/
theorem waits_step (hs : s.step e l = some s') (hwaits : s.waits = true) (hl : s.locks l = false)
    (htick : ∀ drained m, l ≠ .tick drained m) :
    s'.waits = true ∧ s'.daemon.poisoned = s.daemon.poisoned ∧
      s'.daemon.state = s.daemon.state := by
  rw [waits_iff] at hwaits ⊢
  obtain ⟨hshared, hsenders⟩ := hwaits
  obtain ⟨-, ⟨stream, daemon, fanout, rfl, hd, hf, rfl⟩ | ⟨i, ok, daemon, rfl, hd, hcases⟩ |
    ⟨drained, m, daemon, rfl, -, hd, rfl⟩ | ⟨bytes, fanout, rfl, hbytes, hf, rfl⟩ |
    ⟨m, fanout, rfl, hown, hf, rfl⟩ | ⟨daemon, rfl, hd, rfl⟩⟩ := step_cases hs
  · rcases Daemon.step_cases hd with ⟨_, -, rfl⟩ | ⟨_, _, _, hl, -⟩ | ⟨_, _, hl, -⟩ | ⟨hl, -⟩
    · exact ⟨⟨hshared, Fanout.unlocked_step rfl hf hsenders⟩, rfl, rfl⟩
    · cases hl
    · cases hl
    · cases hl
  · obtain ⟨hpoisoned, hstate⟩ := state_of_not_locks hd hl
    rcases hcases with ⟨-, rfl⟩ | ⟨m, fanout, -, hf, rfl⟩
    · exact ⟨⟨hshared, hsenders⟩, hpoisoned, hstate⟩
    · exact ⟨⟨hshared, Fanout.unlocked_step rfl hf hsenders⟩, hpoisoned, hstate⟩
  · exact absurd rfl (htick drained m)
  · rw [hshared] at hbytes
    cases hbytes
  · refine ⟨⟨hshared, Fanout.unlocked_step ?_ hf hsenders⟩, rfl, rfl⟩
    cases m with
    | broadcast bytes => cases hown
    | accept | conn | join | starve | offer | finish => rfl
  · rcases Daemon.step_cases hd with ⟨_, hl, -⟩ | ⟨_, _, _, hl, -⟩ | ⟨_, _, hl, -⟩ | ⟨-, rfl⟩
    · cases hl
    · cases hl
    · cases hl
    · exact ⟨⟨hshared, hsenders⟩, rfl, rfl⟩

/-- **What a thread that is not the main loop does to the collector**: nothing, or a reset. -/
theorem stats_step (hs : s.step e l = some s') (htick : ∀ events m, l ≠ .tick (some events) m) :
    s'.daemon.state.stats = s.daemon.state.stats ∨
      s'.daemon.state.stats = s.daemon.state.stats.reset := by
  have hdaemon : s'.daemon = s.daemon ∨ ∃ m, s.daemon.step e m = some s'.daemon ∧
      ∀ events statsMap, m ≠ .tick (some events) statsMap := by
    obtain ⟨-, ⟨stream, daemon, fanout, rfl, hd, hf, rfl⟩ | ⟨i, ok, daemon, rfl, hd, hcases⟩ |
      ⟨drained, m, daemon, rfl, -, hd, rfl⟩ | ⟨bytes, fanout, rfl, -, hf, rfl⟩ |
      ⟨m, fanout, rfl, -, hf, rfl⟩ | ⟨daemon, rfl, hd, rfl⟩⟩ := step_cases hs
    · exact Or.inr ⟨_, hd, by simp⟩
    · rcases hcases with ⟨-, rfl⟩ | ⟨m, fanout, -, hf, rfl⟩
      · exact Or.inr ⟨_, hd, by simp⟩
      · exact Or.inr ⟨_, hd, by simp⟩
    · refine Or.inr ⟨_, hd, fun events statsMap heq => ?_⟩
      cases heq
      exact htick events m rfl
    · exact Or.inl rfl
    · exact Or.inl rfl
    · exact Or.inr ⟨_, hd, by simp⟩
  rcases hdaemon with heq | ⟨m, hm, hne⟩
  · exact Or.inl (by rw [heq])
  · rcases Daemon.stats_step hm with hsame | hreset | ⟨events, statsMap, heq, -⟩
    · exact Or.inl hsame
    · exact Or.inr hreset
    · exact absurd heq (hne events statsMap)

/-- An iteration is one of the main loop. -/
theorem daemon_tick {drained : Option (List ProcStartEvent)} {m : StatsMap}
    (hs : s.step e (.tick drained m) = some s') : s'.daemon = s.daemon.runOnce e drained m := by
  obtain ⟨-, ⟨_, _, _, hl, -⟩ | ⟨_, _, _, hl, -⟩ | ⟨drained', m', daemon, hl, -, hd, rfl⟩ |
    ⟨_, _, hl, -⟩ | ⟨_, _, hl, -⟩ | ⟨_, hl, -⟩⟩ := step_cases hs
  case inr.inr.inl =>
    cases hl
    rcases Daemon.step_cases hd with ⟨_, hl, -⟩ | ⟨_, _, _, hl, -⟩ | ⟨_, _, hl, rfl⟩ | ⟨hl, -⟩
    · cases hl
    · cases hl
    · cases hl
      rfl
    · cases hl
  all_goals cases hl

/-- A main loop that cannot drain the ring buffer has returned. -/
theorem exit_tick_none {m : StatsMap} (hs : s.step e (.tick none m) = some s') :
    s'.daemon.exit ≠ none := by
  rw [daemon_tick hs]
  unfold Daemon.runOnce
  split <;> simp

end Service

namespace Host

variable {s s' : Host n} {l : HostStep n}

/-! ### The two views of the collector -/

/-- The iteration has the lock, and has handed out what it had built before. -/
structure Working (s : Host n) : Prop where
  waits : s.service.waits = true
  poisoned : s.service.daemon.poisoned = false

/-- **The pieces make up what the service takes to be one step**: how the collector that they work
on is related to the one that the service has, which the iteration has not yet changed. -/
def Agree (e : Endian) (s : Host n) : Prop :=
  match s.system.phase with
  | .idle => s.system.stats = s.stats
  | .draining => s.Working ∧ s.found = [] ∧ s.system.stats = s.stats
  | .applying =>
    s.Working ∧ s.found = [] ∧
      (s.system.queue.map Drained.event).foldl StatsCollector.applyEvent s.system.stats =
        s.service.daemon.applied s.drained
  | .collecting =>
    s.Working ∧ System.Sweeps e (s.service.daemon.applied s.drained) s.found s.system.sweep

theorem Agree.idle (h : s.Agree e) (hphase : s.system.phase = .idle) :
    s.system.stats = s.stats := by
  rwa [Agree, hphase] at h

theorem Agree.draining (h : s.Agree e) (hphase : s.system.phase = .draining) :
    s.Working ∧ s.found = [] ∧ s.system.stats = s.stats := by
  rwa [Agree, hphase] at h

theorem Agree.applying (h : s.Agree e) (hphase : s.system.phase = .applying) :
    s.Working ∧ s.found = [] ∧
      (s.system.queue.map Drained.event).foldl StatsCollector.applyEvent s.system.stats =
        s.service.daemon.applied s.drained := by
  rwa [Agree, hphase] at h

theorem Agree.collecting (h : s.Agree e) (hphase : s.system.phase = .collecting) :
    s.Working ∧ System.Sweeps e (s.service.daemon.applied s.drained) s.found s.system.sweep := by
  rwa [Agree, hphase] at h

/-- What the agreement is about. -/
theorem Agree.congr (h : s.Agree e) (hw : s.Working → s'.Working)
    (hphase : s'.system.phase = s.system.phase) (hstats : s'.stats = s.stats)
    (hsweep : s'.system.sweep = s.system.sweep) (hqueue : s'.system.queue = s.system.queue)
    (hdrained : s'.drained = s.drained) (hfound : s'.found = s.found) : s'.Agree e := by
  have happlied : s'.service.daemon.applied s'.drained = s.service.daemon.applied s.drained := by
    show s'.drained.foldl StatsCollector.applyEvent s'.stats = _
    rw [hstats, hdrained]
    rfl
  unfold Agree at h ⊢
  rw [hphase, System.stats, hsweep, hqueue, hstats, happlied, hfound]
  split at h
  case h_1 => exact h
  case h_2 => exact ⟨hw h.1, h.2⟩
  case h_3 => exact ⟨hw h.1, h.2⟩
  case h_4 => exact ⟨hw h.1, h.2⟩

theorem Agree.working (h : s.Agree e) (hphase : s.system.phase ≠ .idle) : s.Working := by
  unfold Agree at h
  split at h
  case h_1 hidle => exact absurd hidle hphase
  all_goals exact h.1

/-- **A piece of an iteration** keeps the views in agreement. -/
theorem Agree.piece (h : s.Agree e) (hdistinct : s.system.stats.Distinct) {l : SystemStep n}
    {system : System n} (hl : l ≠ .finish) (hallows : s.allowsPiece l = true)
    (hs : s.system.step e l = some system) : Agree e { s.remember l with system } := by
  rcases System.step_cases hs with ⟨l', k, rfl, -, rfl⟩ | ⟨rfl, -, -⟩ | ⟨rfl, hphase, rfl⟩ |
    ⟨name, r, events, rfl, hphase, -, -, rfl⟩ | ⟨rfl, hphase, rfl⟩ |
    ⟨d, queue, rfl, hphase, hqueue, rfl⟩ | ⟨rfl, hphase, hqueue, rfl⟩ |
    ⟨done, i, todo, rfl, hphase, hprocs, hidx, rfl⟩ | ⟨rfl, -, -⟩
  · exact h.congr (fun hw => ⟨hw.waits, hw.poisoned⟩) rfl rfl rfl rfl rfl rfl
  · cases hallows
  · -- The main loop gets the lock.
    simp only [allowsPiece, Bool.and_eq_true, Bool.not_eq_true'] at hallows
    exact ⟨⟨hallows.1.2, hallows.2⟩, rfl, h.idle hphase⟩
  · obtain ⟨hw, hfound, hstats⟩ := h.draining hphase
    simp only [Agree, hphase]
    exact ⟨⟨hw.waits, hw.poisoned⟩, hfound, hstats⟩
  · obtain ⟨hw, hfound, hstats⟩ := h.draining hphase
    refine ⟨⟨hw.waits, hw.poisoned⟩, hfound, ?_⟩
    exact congrArg (List.foldl StatsCollector.applyEvent · _) hstats
  · obtain ⟨hw, hfound, hstats⟩ := h.applying hphase
    rw [hqueue] at hstats
    simp only [Agree, System.phase_withStats, hphase]
    exact ⟨⟨hw.waits, hw.poisoned⟩, hfound, hstats⟩
  · obtain ⟨hw, hfound, hstats⟩ := h.applying hphase
    rw [hqueue] at hstats
    have hstats : s.system.stats = s.service.daemon.applied s.drained := hstats
    refine ⟨⟨hw.waits, hw.poisoned⟩, ?_⟩
    show System.Sweeps e (s.service.daemon.applied s.drained) s.found (.start s.system.stats)
    rw [hfound, ← hstats]
    exact System.sweeps_start hdistinct
  · obtain ⟨hw, hsweep⟩ := h.collecting hphase
    have hget : s.system.sweep.procs[s.system.sweep.idx]? = some i := by simp [hprocs, hidx]
    simp only [Agree, hphase, remember, hget]
    exact ⟨⟨hw.waits, hw.poisoned⟩, hsweep.visit hprocs hidx _⟩
  · exact absurd rfl hl

/-- What the iteration has computed when its loop has ended. -/
theorem Agree.collected (h : s.Agree e) {system : System n}
    (hs : s.system.step e .finish = some system) :
    s.Working ∧ system = { s.system with phase := .idle } ∧
      (s.service.daemon.applied s.drained).collectRows e (System.foundMap e s.found)
        s.service.daemon.rows = (s.system.stats, s.system.sweep.out) := by
  obtain ⟨⟨hphase, hidx⟩, hsystem⟩ := Option.ite_none_right_eq_some.mp hs
  obtain ⟨hw, hsweep⟩ := h.collecting hphase
  exact ⟨hw, (Option.some.inj hsystem).symm, (hsweep.collectRows hidx).1⟩

/-- **The last piece** of an iteration leaves the collector that the service has computed. -/
theorem Agree.finish (h : s.Agree e) {system : System n} {service : Service}
    (hs : s.system.step e .finish = some system)
    (hservice : s.service.step e (s.iteration e) = some service) :
    Agree e { s with service, system } := by
  obtain ⟨hw, rfl, hcollect⟩ := h.collected hs
  have hstats : service.daemon.state.stats =
      ((s.service.daemon.applied s.drained).collectRows e (System.foundMap e s.found)
        s.service.daemon.rows).1 := by
    rw [Service.daemon_tick hservice]
    exact (Daemon.stats_runOnce hw.poisoned _ _).2
  rw [hcollect] at hstats
  exact hstats.symm

/-- **What the last piece builds** has the rows and the dead list that the pieces have collected. -/
theorem Agree.built (h : s.Agree e) (hs : s.step e (.system .finish) = some s') :
    s.built e (.system .finish) =
      if s'.service.daemon.exit.isNone then
        some ⟨s'.service.daemon.state.interval, s'.service.daemon.state.tick, s.system.sweep.out,
          s.system.sweep.deadProcs⟩
      else none := by
  rcases step_cases hs with ⟨_, _, hl, hne, -⟩ | ⟨system, service, -, hsystem, hservice, rfl⟩ |
    ⟨_, _, hl, -⟩
  · cases hl
    exact absurd rfl hne
  · obtain ⟨hw, -, hcollect⟩ := h.collected hsystem
    have hdaemon : service.daemon =
        s.service.daemon.runOnce e (some s.drained) (System.foundMap e s.found) :=
      Service.daemon_tick hservice
    have hstate := (Daemon.runOnce_some (e := e) hw.poisoned s.drained
      (System.foundMap e s.found)).1
    have hrows := congrArg Prod.snd hcollect
    have hdead := congrArg (fun c => c.1.deadProcs) hcollect
    have hdata : (s.service.daemon.snapshot e s.drained (System.foundMap e s.found)).toData =
        ⟨service.daemon.state.interval, service.daemon.state.tick, s.system.sweep.out,
          s.system.sweep.deadProcs⟩ := by
      rw [hdaemon, hstate]
      exact congrArg₂ (SnapshotData.mk _ _) hrows hdead
    show s.service.built e (s.iteration e) = _
    rw [iteration, Service.built, hw.poisoned, if_neg (by decide), hdata, ← hdaemon]
  · cases hl

/-- **The other threads** keep the views in agreement, as long as the main loop runs. -/
theorem Agree.service (h : s.Agree e) {l : ServiceStep} {service : Service}
    (hallows : s.allows l = true) (hs : s.service.step e l = some service)
    (hexit : service.daemon.exit = none) :
    Agree e { s with service, system := s.share service } := by
  by_cases hphase : s.system.phase = .idle
  · rw [share, if_pos hphase]
    simp only [Agree, System.phase_withStats, hphase]
    rfl
  · -- No thread has the lock but the main loop.
    have hw := h.working hphase
    have hl : s.service.locks l = false ∧ ∀ drained m, l ≠ .tick drained m := by
      cases l with
      | reader i ok =>
        simp only [allows, hphase, decide_false, Bool.false_or, Bool.not_eq_true'] at hallows
        exact ⟨hallows, by simp⟩
      | tick drained m =>
        -- A main loop that fails has returned.
        simp only [allows, hphase, decide_false, Bool.false_or, Bool.and_eq_true,
          Option.isNone_iff_eq_none] at hallows
        obtain ⟨rfl, -⟩ := hallows
        exact absurd hexit (Service.exit_tick_none hs)
      | shutdown =>
        simp only [allows, hphase, decide_false, Bool.false_eq_true] at hallows
      | accept | broadcast | fan => exact ⟨rfl, by simp⟩
    obtain ⟨hwaits, hpoisoned, hstate⟩ := Service.waits_step hs hw.waits hl.1 hl.2
    have hshare : s.share service = s.system := if_neg hphase
    rw [hshare]
    exact h.congr (fun _ => ⟨hwaits, hpoisoned.trans hw.poisoned⟩) rfl
      (congrArg DaemonState.stats hstate) rfl rfl rfl rfl

/-! ### Runs of the host -/

/-- A lookup of the run has found the row. -/
def Sampled (e : Endian) (ls : List (HostStep n)) (r : StatsRow) : Prop :=
  ∃ ls₁ ls₂ u i new, ls = ls₁ ++ .system .visit :: ls₂ ∧ exec (step e) .boot ls₁ = some u ∧
    i ∈ u.system.sweep.procs ∧ System.merged u.system.kernel i.pid = some new ∧ r = i.row new

theorem Sampled.concat {ls : List (HostStep n)} {r : StatsRow} (h : Sampled e ls r)
    (l : HostStep n) : Sampled e (ls ++ [l]) r := by
  obtain ⟨ls₁, ls₂, u, i, new, rfl, hrun, hi, hfound, rfl⟩ := h
  exact ⟨ls₁, ls₂ ++ [l], u, i, new, by simp, hrun, hi, hfound, rfl⟩

/-- **What a snapshot says is true**: its rows were found in the kernel's map, and neither they nor
the dead list report more than what the calls of the processes were passed. -/
structure Honest (e : Endian) (ls : List (HostStep n)) (snap : SnapshotData) : Prop where
  sampled : ∀ r ∈ snap.rows, Sampled e ls r
  row : ∀ r ∈ snap.rows, ∀ p d, r.delta p d ≤ r.cum p d ∧
    (r.cum p d).toNat ≤ passed (hostKernelSteps ls) r.pid p d
  dead : ∀ i ∈ snap.deadProcs, ∀ p d,
    ((i.cum p).dir d).toNat ≤ passed (hostKernelSteps ls) i.pid p d

theorem passed_hostKernelSteps_le (ls : List (HostStep n)) (l : HostStep n) (pid : UInt32)
    (p : Protocol) (d : Dir) :
    passed (hostKernelSteps ls) pid p d ≤ passed (hostKernelSteps (ls ++ [l])) pid p d := by
  rw [hostKernelSteps, hostKernelSteps, List.filterMap_append, passed, passed, List.map_append,
    List.sum_append]
  exact Nat.le_add_right _ _

theorem Honest.concat {ls : List (HostStep n)} {snap : SnapshotData} (h : Honest e ls snap)
    (l : HostStep n) : Honest e (ls ++ [l]) snap where
  sampled r hr := (h.sampled r hr).concat l
  row r hr p d := ⟨(h.row r hr p d).1,
    (h.row r hr p d).2.trans (passed_hostKernelSteps_le ls l r.pid p d)⟩
  dead i hi p d := (h.dead i hi p d).trans (passed_hostKernelSteps_le ls l i.pid p d)

/-- **A run of the host is a run of each of its parts**, whose snapshots are honest. -/
structure Joined (e : Endian) (s : Host n) (ls : List (HostStep n)) (hist : List SnapshotData) :
    Prop where
  system : ∃ ls', exec (System.step e) .boot ls' = some s.system ∧
    kernelSteps ls' = hostKernelSteps ls
  service : ∃ ls', exec (Service.step e) .new ls' = some s.service ∧ Service.builtOf e ls' = hist
  agree : s.service.daemon.exit = none → s.Agree e
  rows : ∀ r ∈ s.system.sweep.out, Sampled e ls r
  built : ∀ snap ∈ hist, Honest e ls snap

theorem joined_boot : Joined e (boot : Host n) [] [] where
  system := ⟨[], rfl, rfl⟩
  service := ⟨[], rfl, rfl⟩
  agree _ := rfl
  rows := by simp [boot, System.boot, Sweep.start]
  built := by simp

/-- A step of the system is one of its runs. -/
theorem system_concat {ls' : List (SystemStep n)} {ls : List (HostStep n)} {system : System n}
    (h : exec (System.step e) .boot ls' = some s.system ∧ kernelSteps ls' = hostKernelSteps ls)
    {l : SystemStep n} {l' : HostStep n} (hs : s.system.step e l = some system)
    (hl : l.kernel? = l'.kernel?) :
    ∃ ls', exec (System.step e) .boot ls' = some system ∧
      kernelSteps ls' = hostKernelSteps (ls ++ [l']) := by
  refine ⟨ls' ++ [l], exec_append_eq_some.mpr ⟨_, h.1, (exec_singleton _ _).trans hs⟩, ?_⟩
  rw [kernelSteps, List.filterMap_append, ← kernelSteps, h.2, hostKernelSteps, hostKernelSteps,
    List.filterMap_append]
  cases hk : l'.kernel? with
  | none =>
    rw [List.filterMap_cons_none (hl.trans hk), List.filterMap_cons_none hk]
    rfl
  | some k =>
    rw [List.filterMap_cons_some (hl.trans hk), List.filterMap_cons_some hk]
    rfl

/-- What a step of the system does to the rows. -/
theorem out_step {u u' : System n} {l : SystemStep n} (hs : u.step e l = some u') :
    ∀ r ∈ u'.sweep.out, r ∈ u.sweep.out ∨ l = .visit ∧ ∃ i new, i ∈ u.sweep.procs ∧
      System.merged u.kernel i.pid = some new ∧ r = i.row new := by
  intro r hr
  rcases System.step_cases hs with ⟨l', k, rfl, -, rfl⟩ | ⟨rfl, -, rfl⟩ | ⟨rfl, -, rfl⟩ |
    ⟨name, r, events, rfl, -, -, -, rfl⟩ | ⟨rfl, -, rfl⟩ | ⟨d, queue, rfl, -, -, rfl⟩ |
    ⟨rfl, -, -, rfl⟩ | ⟨done, i, todo, rfl, -, hprocs, hidx, rfl⟩ | ⟨rfl, -, rfl⟩
  case inr.inr.inr.inr.inr.inr.inl => simp [Sweep.start] at hr
  case inr.inr.inr.inr.inr.inr.inr.inl =>
    cases hfound : System.merged u.kernel i.pid with
    | none =>
      simp only [hfound, Sweep.visit_none hprocs hidx] at hr
      exact Or.inl hr
    | some new =>
      simp only [hfound, Sweep.visit_some hprocs hidx, List.mem_append, List.mem_singleton] at hr
      exact hr.imp_right fun heq => ⟨rfl, i, new, by simp [hprocs], hfound, heq⟩
  all_goals exact Or.inl hr

/-- **What an iteration builds is honest.** -/
theorem Joined.honest {ls : List (HostStep n)} {hist : List SnapshotData} (h : s.Joined e ls hist)
    (hs : s.step e (.system .finish) = some s') (hexit : s.service.daemon.exit = none)
    {snap : SnapshotData} (hsnap : s.built e (.system .finish) = some snap) :
    Honest e ls snap := by
  obtain ⟨ls', hsys, hkernel⟩ := h.system
  obtain ⟨hbooks, hreported⟩ := System.books_exec hsys
  have hpassed : ∀ pid p d, writtenFor (writesOf (System.history e ls')) pid p d ≤
      passed (hostKernelSteps ls) pid p d := by
    intro pid p d
    rw [← hkernel, hbooks.balance pid p d, Nat.add_assoc]
    exact Nat.le_add_right _ _
  rw [(h.agree hexit).built hs] at hsnap
  obtain ⟨-, hsnap⟩ := Option.ite_none_right_eq_some.mp hsnap
  obtain rfl := Option.some.inj hsnap
  refine ⟨h.rows, fun r hr p d => ?_, fun i hi p d => ?_⟩
  · obtain ⟨hwritten, hdelta⟩ := hreported.row r hr p d
    exact ⟨hdelta, hwritten.trans (hpassed r.pid p d)⟩
  · exact (hreported.record i (List.mem_append_right _ hi) p d).trans (hpassed i.pid p d)

/-- No other thread builds a snapshot. -/
theorem built_of_allows {l : ServiceStep} (h : s.allows l = true) : s.service.built e l = none := by
  cases l with
  | tick drained m =>
    simp only [allows, Bool.and_eq_true, Option.isNone_iff_eq_none] at h
    rw [h.1, Service.built]
  | accept | reader | broadcast | fan | shutdown => rfl

/-- **A command that is carried out between two iterations** is a reset of the collector, or nothing
to it. -/
theorem Joined.system_service {ls : List (HostStep n)} {hist : List SnapshotData}
    (h : s.Joined e ls hist) {l : ServiceStep} {service : Service} (hallows : s.allows l = true)
    (hs : s.service.step e l = some service) :
    ∃ ls', exec (System.step e) .boot ls' = some (s.share service) ∧
      kernelSteps ls' = hostKernelSteps (ls ++ [.service l]) := by
  obtain ⟨ls', hsys⟩ := h.system
  have hsame : ∃ ls', exec (System.step e) .boot ls' = some s.system ∧
      kernelSteps ls' = hostKernelSteps (ls ++ [.service l]) := by
    refine ⟨ls', hsys.1, ?_⟩
    rw [hsys.2, hostKernelSteps, hostKernelSteps, List.filterMap_append]
    exact (List.append_nil _).symm
  by_cases hphase : s.system.phase = .idle
  · have hstats := (h.agree (Service.step_cases hs).1).idle hphase
    have htick : ∀ events m, l ≠ .tick (some events) m := by
      rintro events m rfl
      cases hallows
    rw [share, if_pos hphase]
    rcases Service.stats_step hs htick with hl | hl
    · rw [hl, ← stats, ← hstats]
      exact hsame
    · rw [hl, ← stats, ← hstats]
      exact system_concat hsys (l := .reset) (if_pos hphase) rfl
  · rw [share, if_neg hphase]
    exact hsame

/-- **The step lemma.** -/
theorem Joined.step {ls : List (HostStep n)} {hist : List SnapshotData} {l : HostStep n}
    (hrun : exec (Host.step e) .boot ls = some s) (h : s.Joined e ls hist)
    (hs : s.step e l = some s') : s'.Joined e (ls ++ [l]) (hist ++ (s.built e l).toList) := by
  obtain ⟨ls', hsys⟩ := h.system
  obtain ⟨ms, hms, hbuilt⟩ := h.service
  have hsampled : ∀ {u : System n} {l' : SystemStep n}, l = .system l' →
      s.system.step e l' = some u → ∀ r ∈ u.sweep.out, Sampled e (ls ++ [l]) r := by
    rintro u l' rfl hu r hr
    rcases out_step hu r hr with hr | ⟨rfl, i, new, hi, hfound, rfl⟩
    · exact (h.rows r hr).concat _
    · exact ⟨ls, [], s, i, new, rfl, hrun, hi, hfound, rfl⟩
  have hhist : ∀ snap ∈ hist, Honest e (ls ++ [l]) snap := fun snap hmem =>
    (h.built snap hmem).concat l
  rcases step_cases hs with ⟨l', system, rfl, hne, hallows, hsystem, rfl⟩ |
    ⟨system, service, rfl, hsystem, hservice, rfl⟩ | ⟨l', service, rfl, hallows, hservice, rfl⟩
  · have hservice : (s.remember l').service = s.service := by cases l' <;> rfl
    have hnone : s.built e (.system l') = none := by
      cases l' with
      | finish => exact absurd rfl hne
      | kernel | reset | tick | drain | drained | apply | collect | visit => rfl
    rw [hnone, Option.toList_none, List.append_nil]
    refine ⟨system_concat hsys hsystem rfl, ⟨ms, ?_, hbuilt⟩, fun hexit => ?_,
      hsampled rfl hsystem, hhist⟩
    · rw [hms, ← hservice]
    · exact (h.agree (by rwa [← hservice])).piece (System.follows_exec hsys.1).distinct hne hallows
        hsystem
  · have hexit := (Service.step_cases hservice).1
    refine ⟨system_concat hsys hsystem rfl, ⟨ms ++ [s.iteration e], ?_, ?_⟩, fun _ => ?_,
      hsampled rfl hsystem, ?_⟩
    · exact exec_append_eq_some.mpr ⟨_, hms, (exec_singleton _ _).trans hservice⟩
    · rw [Service.builtOf, observe_concat hms hservice, ← hbuilt]
      rfl
    · exact (h.agree hexit).finish hsystem hservice
    · intro snap hmem
      rcases List.mem_append.mp hmem with hmem | hmem
      · exact hhist snap hmem
      · exact (h.honest hs hexit (Option.mem_toList.mp hmem)).concat _
  · rw [show s.built e (.service l') = none from rfl, Option.toList_none, List.append_nil]
    refine ⟨h.system_service hallows hservice, ⟨ms ++ [l'], ?_, ?_⟩, fun hexit => ?_, ?_, hhist⟩
    · exact exec_append_eq_some.mpr ⟨_, hms, (exec_singleton _ _).trans hservice⟩
    · rw [Service.builtOf, observe_concat hms hservice, built_of_allows hallows,
        Option.toList_none, List.append_nil]
      exact hbuilt
    · exact (h.agree (Service.step_cases hservice).1).service hallows hservice hexit
    · intro r hr
      have hout : (s.share service).sweep.out = s.system.sweep.out := by
        unfold Host.share
        split <;> rfl
      exact (h.rows r (hout ▸ hr)).concat _

theorem Joined.exec {ls : List (HostStep n)} (h : Lib.exec (Host.step e) .boot ls = some s) :
    s.Joined e ls (builtOf e ls) := by
  refine exec_concat_rec (R := fun ls s => s.Joined e ls (builtOf e ls)) joined_boot
    (fun ls l s s' hrun hR hs => ?_) h
  rw [builtOf, observe_concat hrun hs]
  exact hR.step hrun hs

end Host

/-- **The iteration of the service is made of pieces.** In every run of the host the pieces of the
iterations, between which the kernel and the other threads go on, are a run of `System` over the
same steps of the kernel; and the threads are a run of `Service`, in which every iteration is one
step and builds the snapshot that the host builds. This snapshot has the rows and the dead list that
the pieces have collected when the last one is taken; it is missing only if the main loop ends, as
it cannot be serialized. Between two iterations both have the same collector. -/
theorem host_refines_service (e : Endian) {ls : List (HostStep n)} {s : Host n}
    (h : exec (Host.step e) .boot ls = some s) :
    (∃ ls', exec (System.step e) .boot ls' = some s.system ∧
      kernelSteps ls' = hostKernelSteps ls) ∧
    (∃ ls', exec (Service.step e) .new ls' = some s.service ∧
      Service.builtOf e ls' = Host.builtOf e ls) ∧
    (∀ s', s.step e (.system .finish) = some s' → s.built e (.system .finish) =
      if s'.service.daemon.exit.isNone then
        some ⟨s'.service.daemon.state.interval, s'.service.daemon.state.tick, s.system.sweep.out,
          s.system.sweep.deadProcs⟩
      else none) ∧
    (s.service.daemon.exit = none → s.system.phase = .idle →
      s.service.daemon.state.stats = s.system.stats) := by
  have hs := Host.Joined.exec h
  refine ⟨hs.system, hs.service, fun s' hfinish => ?_, fun hexit hphase => ?_⟩
  · exact (hs.agree (Host.exit_of_finish hfinish)).built hfinish
  · exact ((hs.agree hexit).idle hphase).symm

/-- A process sends 100 bytes. While the daemon looks it up, it goes on to send 30 more, and a
client connects, which is served the snapshot of the second iteration. -/
def sampledRun : List (HostStep 1) :=
  .system (.kernel (.spawn (leader 7))) ::
    ((firstCall soleCpu (leader 7) 100).map fun l => .system (.kernel l)) ++
    [.service (.accept [.bytes 4 [0, 0, 0, 0, 0]]), .system .tick, .system (.drain "curl"),
      .service (.reader 0 true), .system .drained, .system .apply, .system .collect, .system .visit,
      .system (.kernel (.enter soleCpu (leader 7) default 30 0 .tcp)), .service (.reader 0 true),
      .system .finish, .service .broadcast, .service (.fan .finish), .service (.reader 0 true),
      .service (.fan (.conn 0 (.arm true))), .service (.fan (.join 0 true)),
      .system .tick, .system .drained, .system .collect, .system (.kernel (.run soleCpu)),
      .system .visit, .system (.kernel (.run soleCpu)), .system .finish, .service .broadcast,
      .service (.fan (.offer 0)), .service (.fan .finish), .service (.fan (.conn 0 .recv)),
      .service (.fan (.conn 0 (.write 162)))]

/-- The last piece of the second iteration is the step 28 of the run. -/
theorem host_refines_service_sampled :
    (∃ s ls, exec (Host.step .little) .boot sampledRun = some s ∧
      exec (Service.step .little) .new ls = some s.service ∧
      (Service.builtOf .little ls).map (fun snap => (snap.tick, snap.rows.map StatsRow.pid)) =
        [(1, [7]), (2, [7])] ∧
      s.service.daemon.state.stats = s.system.stats) ∧
    ∃ u, exec (Host.step .little) .boot (sampledRun.take 28) = some u ∧
      u.system.sweep.out.map StatsRow.pid = [7] ∧
      u.built .little (.system .finish) =
        some ⟨1000, 2, u.system.sweep.out, u.system.sweep.deadProcs⟩ := by
  obtain ⟨s, hs, hp⟩ := exists_exec_of_any (Host.step .little) .boot sampledRun
    (fun s => s.service.daemon.exit = none ∧ s.system.phase = .idle) (by decide +kernel)
  obtain ⟨hexit, hphase⟩ := of_decide_eq_true hp
  obtain ⟨-, ⟨ls, hls, hbuilt⟩, -, hstats⟩ := host_refines_service .little hs
  refine ⟨⟨s, ls, hs, hls, by rw [hbuilt]; decide +kernel, hstats hexit hphase⟩, ?_⟩
  obtain ⟨u, hu, hq⟩ := exists_exec_of_any (Host.step .little) .boot (sampledRun.take 28)
    (fun u => u.system.sweep.out.map StatsRow.pid = [7] ∧
      (u.step .little (.system .finish)).any fun u' =>
        u'.service.daemon.exit.isNone ∧ u'.service.daemon.state.interval = 1000 ∧
          u'.service.daemon.state.tick = 2) (by decide +kernel)
  obtain ⟨hrows, hlast⟩ := of_decide_eq_true hq
  obtain ⟨u', hu', hq'⟩ := (Option.any_eq_true _ _).mp hlast
  obtain ⟨hgoes, hinterval, htick⟩ := of_decide_eq_true hq'
  obtain ⟨-, -, hfinish, -⟩ := host_refines_service .little hu
  refine ⟨u, hu, hrows, ?_⟩
  rw [hfinish u' hu', if_pos hgoes, hinterval, htick]

/-- **What a client shows is real.** Let a client read some first part of what is on the wire of its
connection, in any pieces, in a run of the daemon with any number of other clients, on a kernel with
any number of CPUs and threads. Every row of every frame that it draws is what a lookup of the
daemon has found in the kernel's map at some moment of the run; the row reports no more than what
the calls for its process were passed, nor does the dead list. -/
theorem shown_is_real (e : Endian) {ls : List (HostStep n)} {s : Host n} {i : ℕ} {k : Connection}
    {command : Option Command} {ks : List ClientStep} {c : ClientProcess}
    (h : exec (Host.step e) .boot ls = some s) (hk : s.service.fanout.conns[i]? = some k)
    (hc : exec ClientProcess.step (.start command) ks = some c)
    (hsource : c.source.bytes <+: k.wire) :
    ∀ snap ∈ drawnOf (ClientProcess.history command ks), Host.Honest e ls snap := by
  have hs := Host.Joined.exec h
  obtain ⟨ms, hms, hbuilt⟩ := hs.service
  obtain ⟨msgs, hmsgs, -, hfeed⟩ := (Composed.exec hms).feed hk hc hsource
  obtain ⟨js, -, -, hdrawn⟩ := hfeed.drawn
  intro snap hsnap
  rw [hdrawn] at hsnap
  obtain ⟨j, -, rfl⟩ := List.mem_map.mp hsnap
  rcases nthShown_cases msgs j with heq | hmem
  · rw [heq]
    exact ⟨by simp [blank], by simp [blank], by simp [blank]⟩
  · exact hs.built _ (hbuilt ▸ hmsgs.subset hmem)

/-- The snapshot of its second iteration. -/
def sampledSnapshot : SnapshotData :=
  ⟨1000, 2, [⟨7, "curl", default, default, ⟨100, 0⟩, default⟩], []⟩

/-- The client reads it in two pieces. -/
def sampledSource : Source :=
  Source.putBack ((SnapshotData.frame sampledSnapshot).take 62)
    (Source.putBack ((SnapshotData.frame sampledSnapshot).drop 62) [])

def sampledClient : List ClientStep :=
  [.connect (some sampledSource), .clone true, .send none, .tuiNew true, .receive, .tryRecv,
    .tryRecv, .draw (some 5)]

/-- Of the 130 bytes, it shows the 100 that had been added. -/
theorem shown_is_real_sampled :
    drawnOf (ClientProcess.history none sampledClient) = [sampledSnapshot] ∧
      passed (hostKernelSteps sampledRun) 7 .tcp .sent = 130 ∧
      Host.Honest .little sampledRun sampledSnapshot := by
  obtain ⟨s, hs, hp⟩ := exists_exec_of_any (Host.step .little) .boot sampledRun
    (fun s => s.service.fanout.conns[0]?.any fun k => decide (sampledSource.bytes <+: k.wire))
    (by decide +kernel)
  obtain ⟨k, hk, hwire⟩ := (Option.any_eq_true _ _).mp hp
  obtain ⟨c, hc, hsource⟩ := exists_exec_of_any ClientProcess.step (.start none) sampledClient
    (fun c => c.source = sampledSource) (by decide +kernel)
  have hdrawn : drawnOf (ClientProcess.history none sampledClient) = [sampledSnapshot] := by
    decide +kernel
  have hreal := shown_is_real .little hs hk hc
    (by rw [of_decide_eq_true hsource]; exact of_decide_eq_true hwire)
  exact ⟨hdrawn, by decide +kernel, hreal _ (by rw [hdrawn]; exact List.mem_singleton_self _)⟩

end Procnet
