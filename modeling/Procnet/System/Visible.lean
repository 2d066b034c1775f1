import Procnet.Bpf.Events
import Procnet.System.Model

/-!
# Processes that the daemon never learns of

The daemon knows of a process only through the start event of its entry, which is emitted
once, when the entry is inserted. `bpf_ringbuf_reserve` fails when the ring buffer is full,
and then the event is not emitted at all: the entry counts on, but nobody will look it up.

`visible_iff` says exactly when this happens: every process with an entry stays visible
(`Visible`) throughout a run exactly when no reservation fails that the daemon depends on
(`Heard`). A failed reservation does no harm if the process is tracked under its pid
already, if another event for its pid is on its way, or if its entry has been deleted in the
meantime.
-/

namespace Procnet

open Lib

namespace System

variable {n : ℕ} {e : Endian} {s s' : System n} {tgid : UInt32}

/-- Whether the daemon tracks a process. -/
def Tracked (s : System n) (tgid : UInt32) : Prop := ∃ i ∈ s.sweep.procs, i.pid = tgid

/-- Whether there is a start event for a process that has not been applied: in the ring
buffer, or drained by the iteration under way. -/
def Unapplied (s : System n) (tgid : UInt32) : Prop :=
  (∃ r ∈ s.kernel.events, r.tgid = tgid) ∨ ∃ d ∈ s.queue, d.event.pid = tgid

/-- Whether the daemon tracks a process, or is going to. -/
def Visible (s : System n) (tgid : UInt32) : Prop :=
  s.Tracked tgid ∨ s.Unapplied tgid ∨ ∃ cpu, s.kernel.Emitting cpu tgid

instance (s : System n) (tgid : UInt32) : Decidable (s.Tracked tgid) :=
  inferInstanceAs (Decidable (∃ i ∈ _, _))

instance (s : System n) (tgid : UInt32) : Decidable (s.Unapplied tgid) :=
  inferInstanceAs (Decidable ((∃ r ∈ _, _) ∨ ∃ d ∈ _, _))

instance (s : System n) (tgid : UInt32) : Decidable (s.Visible tgid) :=
  inferInstanceAs (Decidable (_ ∨ _ ∨ ∃ _, _))

/-- Every process that has an entry is visible. -/
def AllVisible (s : System n) : Prop := ∀ tgid, s.kernel.entryId tgid ≠ none → s.Visible tgid

/-- A step that does not drop the only announcement of an entry: a reservation finds room in
the ring buffer, or its entry is gone, or the process is visible without it. -/
def Heard (s : System n) : SystemStep n → Prop
  | .kernel (.run cpu) => ∀ c ∈ s.kernel.calls cpu, ∀ id ∈ c.pc.announces, c.pc = .reserve id →
      ringHasRoom s.kernel.events ∨ s.kernel.entryId c.thread.tgid = none ∨
        s.Tracked c.thread.tgid ∨ s.Unapplied c.thread.tgid ∨
        ∃ cpu' ≠ cpu, s.kernel.Emitting cpu' c.thread.tgid
  | .kernel (.spawn _) | .kernel (.enter ..) | .kernel (.exit _) | .reset | .tick | .drain _
  | .drained | .apply | .collect | .visit | .finish => True

instance (s : System n) : DecidablePred s.Heard
  | .kernel (.run cpu) =>
    inferInstanceAs (Decidable (∀ c ∈ s.kernel.calls cpu, ∀ id ∈ c.pc.announces, _ → _))
  | .kernel (.spawn _) | .kernel (.enter ..) | .kernel (.exit _) | .reset | .tick | .drain _
  | .drained | .apply | .collect | .visit | .finish => inferInstanceAs (Decidable True)

/-- **The step lemma, in the kernel**: exactly a reservation that is not heard of hides a
process. -/
theorem allVisible_kernel_iff (hk : s.kernel.Announcing) (hs : s.AllVisible) {l : KernelStep n}
    {k : Kernel n} (h : s.kernel.step l = some k) :
    AllVisible { s with kernel := k } ↔ s.Heard (.kernel l) := by
  constructor
  · intro hall
    cases l with
    | spawn t => trivial
    | enter cpu t addr sent recv protocol => trivial
    | exit t => trivial
    | run cpu =>
      -- A full ring drops the event; all are visible then because something else tells.
      intro c hc id _ hpc
      by_cases hroom : ringHasRoom s.kernel.events
      · exact Or.inl hroom
      obtain rfl : s.kernel.ret cpu = k := by
        simpa [Kernel.step, Option.mem_def.mp hc, Kernel.accountBytes, hpc, hroom] using h
      by_cases hentry : s.kernel.entryId c.thread.tgid = none
      · exact Or.inr (Or.inl hentry)
      rcases hall c.thread.tgid hentry with htracked | hunapplied | ⟨cpu', hemit⟩
      · exact Or.inr (Or.inr (Or.inl htracked))
      · exact Or.inr (Or.inr (Or.inr (Or.inl hunapplied)))
      · have hcpu : cpu' ≠ cpu := by
          rintro rfl
          obtain ⟨d, hd, -⟩ := hemit
          simp [Kernel.ret] at hd
        refine Or.inr (Or.inr (Or.inr (Or.inr ⟨cpu', hcpu, ?_⟩)))
        obtain ⟨d, hd, hdc⟩ := hemit
        exact ⟨d, by simpa [Kernel.ret, hcpu] using hd, hdc⟩
  · intro hheard tgid hentry
    rcases Kernel.entryId_step h tgid with ⟨hins, -⟩ | ⟨-, -, hnone⟩ | ⟨-, -, hsame⟩
    · exact Or.inr (Or.inr (Kernel.emitting_of_inserts h hins))
    · exact absurd hnone hentry
    have hkept : ∀ {t : UInt32}, s.Unapplied t → Unapplied { s with kernel := k } t := by
      rintro t (⟨r, hr, hrt⟩ | hqueue)
      · obtain ⟨r', hr', htgid, -⟩ := Kernel.events_step h hr
        exact Or.inl ⟨r', hr', htgid.trans hrt⟩
      · exact Or.inr hqueue
    rcases hs tgid (hsame ▸ hentry) with htracked | hunapplied | ⟨cpu, hemit⟩
    · exact Or.inl htracked
    · exact Or.inr (Or.inl (hkept hunapplied))
    have hreserved : ∀ cpu, ∀ c ∈ s.kernel.calls cpu, ∀ id, c.pc = .submit id →
        ∃ r ∈ s.kernel.events, r.tgid = c.thread.tgid := by
      intro cpu c hc id hpc
      obtain ⟨r, hr, htgid, -⟩ := hk.reserved cpu c hc id hpc
      exact ⟨r, hr, htgid⟩
    rcases Kernel.emitting_step hreserved h hemit with hemit' | hrecord |
      ⟨c, hc, rfl, rfl, ⟨id, hpc⟩, hroom⟩
    · exact Or.inr (Or.inr ⟨cpu, hemit'⟩)
    · exact Or.inr (Or.inl (Or.inl hrecord))
    -- the event is dropped; something else tells the daemon of the process
    rcases hheard c hc id (by rw [hpc]; rfl) hpc with hroom' | hnone | htracked | hunapplied |
      ⟨cpu', hcpu, hemit'⟩
    · exact absurd hroom' hroom
    · exact absurd (hsame.trans hnone) hentry
    · exact Or.inl htracked
    · exact Or.inr (Or.inl (hkept hunapplied))
    · obtain ⟨d, hd, hdc⟩ := hemit'
      refine Or.inr (Or.inr ⟨cpu', d, Kernel.calls_step h hd ?_, hdc⟩)
      exact fun heq => hcpu (KernelStep.run.inj heq).symm

/-- A visit stops tracking at most the process it looks up, and only if there is no entry. -/
theorem mem_procs_visit {done todo : List ProcInfo} {i : ProcInfo} {sweep : Sweep}
    (hprocs : sweep.procs = done ++ i :: todo) (hidx : sweep.idx = done.length)
    (found : Option ProcStats) {pid : UInt32} :
    (∃ j ∈ (sweep.visit i found).procs, j.pid = pid) ↔
      (∃ j ∈ done ++ todo, j.pid = pid) ∨ (i.pid = pid ∧ found ≠ none) := by
  cases found with
  | some new =>
    rw [Sweep.visit_some hprocs hidx]
    constructor
    · rintro ⟨j, hj, rfl⟩
      simp only [List.mem_append, List.mem_cons] at hj ⊢
      rcases hj with hj | rfl | hj
      · exact Or.inl ⟨j, Or.inl hj, rfl⟩
      · exact Or.inr ⟨rfl, nofun⟩
      · exact Or.inl ⟨j, Or.inr hj, rfl⟩
    · rintro (⟨j, hj, rfl⟩ | ⟨rfl, -⟩)
      · refine ⟨j, ?_, rfl⟩
        simp only [List.mem_append, List.mem_cons] at hj ⊢
        exact hj.imp_right Or.inr
      · exact ⟨i.sampled new, List.mem_append_right _ (List.mem_cons_self ..), rfl⟩
  | none =>
    simp only [Sweep.visit_none hprocs hidx, List.mem_append, (moveLast_perm todo).mem_iff, ne_eq,
      not_true_eq_false, and_false, or_false]

/-- An event stops tracking no process. -/
theorem tracked_applyEvent {c : StatsCollector} {ev : ProcStartEvent} {pid : UInt32} :
    (∃ i ∈ (c.applyEvent ev).procs, i.pid = pid) ↔ (∃ i ∈ c.procs, i.pid = pid) ∨ ev.pid = pid := by
  rcases StatsCollector.applyEvent_cases c ev with ⟨l, old, r, hprocs, hold, heq⟩ | ⟨-, heq⟩
  · rw [heq, hprocs]
    simp only [List.mem_append, List.mem_cons, or_and_right, exists_or, exists_eq_left, hold,
      ProcStartEvent.info]
    refine ⟨Or.inl, ?_⟩
    rintro (hold | hnew)
    · exact hold
    · exact Or.inr (Or.inl hnew)
  · rw [heq]
    simp only [List.mem_append, List.mem_singleton, or_and_right, exists_or, exists_eq_left,
      ProcStartEvent.info]

/-- Where the lookup of a process finds nothing, it has no entry. -/
theorem merged_eq_none {k : Kernel n} {pid : UInt32} :
    merged k pid = none ↔ k.entryId pid = none := by
  rw [merged, Kernel.entryId, Option.map_eq_none_iff, Option.map_eq_none_iff]

/-- **The step lemma.** -/
theorem allVisible_step_iff (hk : s.kernel.Announcing) (hs : s.AllVisible) {l : SystemStep n}
    (h : s.step e l = some s') : s'.AllVisible ↔ s.Heard l := by
  rcases step_cases h with ⟨l', k, rfl, hstep, rfl⟩ | ⟨rfl, -, rfl⟩ | ⟨rfl, -, rfl⟩ |
    ⟨name, r, events, rfl, -, hevents, -, rfl⟩ | ⟨rfl, -, rfl⟩ | ⟨d, queue, rfl, -, hqueue, rfl⟩ |
    ⟨rfl, -, -, rfl⟩ | ⟨done, i, todo, rfl, -, hprocs, hidx, rfl⟩ | ⟨rfl, -, rfl⟩
  · exact allVisible_kernel_iff hk hs hstep
  · refine iff_of_true (fun tgid hentry => (hs tgid hentry).imp_left ?_) trivial
    rintro ⟨i, hi, rfl⟩
    exact ⟨_, List.mem_map_of_mem hi, rfl⟩
  · exact iff_of_true hs trivial
  · -- The event moves from the ring buffer to the queue of the daemon.
    refine iff_of_true (fun tgid hentry => (hs tgid hentry).imp_right (Or.imp_left ?_)) trivial
    rintro (⟨r', hr', rfl⟩ | ⟨d, hd, rfl⟩)
    · rw [hevents] at hr'
      rcases List.mem_cons.mp hr' with rfl | hr'
      · exact Or.inr ⟨_, List.mem_append_right _ (List.mem_singleton_self _), rfl⟩
      · exact Or.inl ⟨r', hr', rfl⟩
    · exact Or.inr ⟨d, List.mem_append_left _ hd, rfl⟩
  · exact iff_of_true hs trivial
  · -- From the queue, it comes to the tracked processes.
    refine iff_of_true (fun tgid hentry => ?_) trivial
    have htracked : ∀ t, (s.Tracked t ∨ d.event.pid = t) →
        Tracked { s.withStats (s.stats.applyEvent d.event) with queue := queue } t :=
      fun t ht => tracked_applyEvent.mpr ht
    rcases hs tgid hentry with hold | (hrecord | ⟨d', hd', rfl⟩) | hemit
    · exact Or.inl (htracked tgid (Or.inl hold))
    · exact Or.inr (Or.inl (Or.inl hrecord))
    · rw [hqueue] at hd'
      rcases List.mem_cons.mp hd' with rfl | hd'
      · exact Or.inl (htracked _ (Or.inr rfl))
      · exact Or.inr (Or.inl (Or.inr ⟨d', hd', rfl⟩))
    · exact Or.inr (Or.inr hemit)
  · exact iff_of_true hs trivial
  · -- A visit finds the entry of a process that has one.
    refine iff_of_true (fun tgid hentry => (hs tgid hentry).imp_left ?_) trivial
    rintro ⟨j, hj, rfl⟩
    refine (mem_procs_visit hprocs hidx _).mpr ?_
    rw [hprocs] at hj
    simp only [List.mem_append, List.mem_cons] at hj ⊢
    rcases hj with hj | rfl | hj
    · exact Or.inl ⟨j, Or.inl hj, rfl⟩
    · exact Or.inr ⟨rfl, fun hnone => hentry (merged_eq_none.mp hnone)⟩
    · exact Or.inl ⟨j, Or.inr hj, rfl⟩
  · exact iff_of_true hs trivial

/-- No step of the daemon disturbs an announcement. -/
theorem announcing_step {l : SystemStep n} (hk : s.kernel.Announcing)
    (h : s.step e l = some s') : s'.kernel.Announcing := by
  rcases step_cases h with ⟨l', k, rfl, hstep, rfl⟩ | ⟨rfl, -, rfl⟩ | ⟨rfl, -, rfl⟩ |
    ⟨name, r, events, rfl, -, hevents, hsub, rfl⟩ | ⟨rfl, -, rfl⟩ |
    ⟨d, queue, rfl, -, hqueue, rfl⟩ |
    ⟨rfl, -, -, rfl⟩ | ⟨done, i, todo, rfl, -, -, -, rfl⟩ | ⟨rfl, -, rfl⟩
  · exact hk.step hstep
  · exact hk
  · exact hk
  · exact hk.withoutHead hevents hsub
  · exact hk
  · exact hk
  · exact hk
  · exact hk
  · exact hk

/-- The daemon holds events in its hands only while it drains and applies them. -/
def QueueHeld (s : System n) : Prop := s.phase = .idle ∨ s.phase = .collecting → s.queue = []

theorem queueHeld_step {l : SystemStep n} (hs : s.QueueHeld) (h : s.step e l = some s') :
    s'.QueueHeld := by
  rcases step_cases h with ⟨l', k, rfl, -, rfl⟩ | ⟨rfl, -, rfl⟩ | ⟨rfl, -, rfl⟩ |
    ⟨name, r, events, rfl, hphase, -, -, rfl⟩ | ⟨rfl, -, rfl⟩ |
    ⟨d, queue, rfl, hphase, -, rfl⟩ | ⟨rfl, -, hqueue, rfl⟩ |
    ⟨done, i, todo, rfl, -, -, -, rfl⟩ | ⟨rfl, hphase, rfl⟩
  · exact hs
  · exact hs
  · rintro (hidle | hcollecting)
    · cases hidle
    · cases hcollecting
  · rintro (hidle | hcollecting)
    · exact absurd (hphase.symm.trans hidle) nofun
    · exact absurd (hphase.symm.trans hcollecting) nofun
  · rintro (hidle | hcollecting)
    · cases hidle
    · cases hcollecting
  · rintro (hidle | hcollecting)
    · exact absurd (hphase.symm.trans hidle) nofun
    · exact absurd (hphase.symm.trans hcollecting) nofun
  · exact fun _ => hqueue
  · exact hs
  · exact fun _ => hs (Or.inr hphase)

/-- **Between two iterations of the daemon**, the start events that have not been applied are
those of the ring buffer. -/
theorem unapplied_iff_of_idle {ls : List (SystemStep n)} (h : exec (step e) .boot ls = some s)
    (hidle : s.phase = .idle) : s.Unapplied tgid ↔ ∃ r ∈ s.kernel.events, r.tgid = tgid := by
  have hqueue : s.QueueHeld :=
    exec_invariant (fun _ _ _ hs hstep => queueHeld_step hs hstep) (fun _ => rfl) h
  simp [Unapplied, hqueue (Or.inl hidle)]

end System

/-- **When every process with an entry is visible**: throughout a run, in whatever order the
threads, the CPUs and the daemon take their steps, exactly when no reservation in the ring
buffer fails that is the only announcement of an entry. -/
theorem visible_iff {n : ℕ} (e : Endian) (ls : List (SystemStep n)) (s : System n)
    (h : exec (System.step e) .boot ls = some s) :
    (∀ ls' u, ls' <+: ls → exec (System.step e) .boot ls' = some u →
      ∀ tgid, u.kernel.stats.lookup tgid ≠ none → u.Visible tgid) ↔
    Meets (System.step e) System.Heard .boot ls := by
  have hexact := exec_always_iff_meets (I := fun s : System n => s.kernel.Announcing)
    (G := System.AllVisible) (fun _ _ _ hk _ hs => System.announcing_step hk hs)
    (fun _ _ _ hk hv hs => System.allVisible_step_iff hk hv hs) Kernel.announcing_boot
    (by simp [System.AllVisible, System.boot, Kernel.boot, Kernel.entryId]) h
  simpa only [System.AllVisible, ne_eq, Kernel.entryId_eq_none] using hexact

/-- The first traffic of a process of one thread. -/
def firstTraffic (pid : UInt32) : List (SystemStep 1) :=
  .kernel (.spawn (leader pid)) :: (firstCall (Fin.last 0) (leader pid) 100).map .kernel

/-- The run of one process, up to the first row of it. -/
def firstRow : List (SystemStep 1) :=
  firstTraffic 7 ++ [.tick, .drain "curl", .drained, .apply, .collect, .visit, .finish]

/-- One process is visible from its first traffic to its row. -/
theorem visible_one_process :
    ∃ s, exec (System.step .little) .boot firstRow = some s ∧ s.kernel.stats.lookup 7 ≠ none ∧
      ∀ ls' u, ls' <+: firstRow → exec (System.step .little) .boot ls' = some u →
        ∀ tgid, u.kernel.stats.lookup tgid ≠ none → u.Visible tgid := by
  obtain ⟨s, hs, hentry⟩ := exists_exec_of_any (System.step .little) (.boot : System 1) firstRow
    (fun s => (s.kernel.stats.lookup 7).isSome) (by decide +kernel)
  refine ⟨s, hs, Option.isSome_iff_ne_none.mp hentry, ?_⟩
  exact (visible_iff .little _ s hs).mpr (by decide +kernel)

/-- After 127 processes that lived between two iterations of the daemon, the next one stays
invisible. -/
theorem start_event_dropped :
    ∃ (ls : List (SystemStep 1)) (s : System 1) (tgid : UInt32),
      exec (System.step .little) .boot ls = some s ∧ s.kernel.stats.lookup tgid ≠ none ∧
        ¬ s.Visible tgid := by
  obtain ⟨s, hs, hend⟩ := exists_exec_of_any (System.step .little) (.boot : System 1)
    (((List.range' 1 127).flatMap fun i =>
      firstTraffic (UInt32.ofNat i) ++ [.kernel (.exit (leader (UInt32.ofNat i)))]) ++
        (firstTraffic 128).dropLast)
    (fun s => (s.kernel.stats.lookup 128).isSome && !decide (s.Visible 128)) (by decide +kernel)
  simp only [Bool.and_eq_true, Bool.not_eq_true', decide_eq_false_iff_not,
    Option.isSome_iff_ne_none] at hend
  exact ⟨_, s, 128, hs, hend.1, hend.2⟩

end Procnet
