import Procnet.Bpf.Kernel

/-!
# Entries of processes that are gone

The entry of a process is deleted by the exit of its leader, but any of its threads can
insert one. A thread that outlives the leader can therefore insert an entry that nothing
deletes any more: it takes one of the places of `STATS`, and the daemon goes on showing
the process.

`stats_clear_iff` says exactly when this happens: once all threads of a process have
exited, its entry is gone exactly when no thread inserted one while the leader was not
there (`InsertsUnderLeader`). That every step keeps an entry under its leader, or does
lasting harm, is `entry_under_leader_iff` and `not_entry_under_leader`.
-/

namespace Procnet

open Lib

namespace Kernel

variable {n : ℕ} {k k' : Kernel n} {tgid : UInt32}

/-- A step that, if it inserts an entry for a process, does so while its leader is there. -/
def InsertsUnderLeader (tgid : UInt32) (k : Kernel n) (l : KernelStep n) : Prop :=
  k.Inserts l tgid → leader tgid ∈ k.live

/-- If a process has an entry, its leader is there. -/
def EntryUnderLeader (tgid : UInt32) (k : Kernel n) : Prop :=
  k.entryId tgid ≠ none → leader tgid ∈ k.live

/-- **The step lemma**: exactly an insertion without the leader leaves an entry without
the leader. -/
theorem entry_under_leader_iff {l : KernelStep n} (hl : l ≠ .spawn (leader tgid))
    (hk : k.EntryUnderLeader tgid) (h : k.step l = some k') :
    k'.EntryUnderLeader tgid ↔ k.InsertsUnderLeader tgid l := by
  rcases entryId_step h tgid with ⟨hins, -, hentry, -, hlive⟩ | ⟨rfl, -, hentry⟩ |
    ⟨hins, hexit, hentry⟩
  · simp [EntryUnderLeader, InsertsUnderLeader, hins, hentry, hlive]
  · refine iff_of_true (fun hsome => absurd hentry hsome) ?_
    rintro ⟨_, _, _, hrun, -⟩
    cases hrun
  · refine iff_of_true (fun hsome => ?_) fun h => absurd h hins
    rw [hentry] at hsome
    exact (mem_live_step h _).mpr (Or.inr ⟨hk hsome, hexit⟩)

/-- An entry without its leader stays. -/
theorem not_entry_under_leader {l : KernelStep n} (hl : l ≠ .spawn (leader tgid))
    (hk : ¬ k.EntryUnderLeader tgid) (h : k.step l = some k') : ¬ k'.EntryUnderLeader tgid := by
  obtain ⟨hsome, hgone⟩ := Classical.not_imp.mp hk
  have hgone' : leader tgid ∉ k'.live := by
    rw [mem_live_step h]
    rintro (rfl | ⟨hlive, -⟩)
    · exact hl rfl
    · exact hgone hlive
  rcases entryId_step h tgid with ⟨-, hnone, -⟩ | ⟨-, hlive, -⟩ | ⟨-, -, hentry⟩
  · exact absurd hnone hsome
  · exact absurd hlive hgone
  · intro hk'
    rw [EntryUnderLeader, hentry] at hk'
    exact hgone' (hk' hsome)

/-- A process that has not started yet: it has no threads, no calls and no entry. -/
structure Absent (tgid : UInt32) (k : Kernel n) : Prop where
  live : ∀ t ∈ k.live, t.tgid ≠ tgid
  calls : ∀ cpu, ∀ c ∈ k.calls cpu, c.thread.tgid ≠ tgid
  entry : k.entryId tgid = none

theorem absent_boot (tgid : UInt32) : (boot : Kernel n).Absent tgid := by
  constructor
  · simp [boot]
  · simp [boot]
  · simp [boot, entryId]

theorem Absent.not_inserts (hk : k.Absent tgid) (l : KernelStep n) : ¬ k.Inserts l tgid := by
  rintro ⟨cpu, c, hc, -, -, htgid, -⟩
  exact hk.calls cpu c hc htgid

/-- Only its leader starts a process. -/
theorem Absent.step {l : KernelStep n} (hl : l ≠ .spawn (leader tgid)) (hk : k.Absent tgid)
    (h : k.step l = some k') : k'.Absent tgid := by
  constructor
  · intro t ht htgid
    rcases (mem_live_step h t).mp ht with rfl | ⟨hlive, -⟩
    · rcases step_cases h with ⟨u, hu, hspawn, -⟩ | ⟨_, _, _, _, _, _, hu, -⟩ | ⟨_, _, hu, -⟩ |
        ⟨_, hu, -⟩
      · obtain rfl := KernelStep.spawn.inj hu
        rcases hspawn.2 with hpid | ⟨u, hu, hutgid⟩
        · refine hl ?_
          cases t
          simp_all [leader]
        · exact hk.live u hu (hutgid.trans htgid)
      all_goals cases hu
    · exact hk.live t hlive htgid
  · intro cpu c hc htgid
    rcases mem_calls_step h hc with ⟨hold, -⟩ | ⟨hlive, -⟩ | ⟨d, hd, -, hthread⟩
    · exact hk.calls cpu c hold htgid
    · exact hk.live _ hlive htgid
    · exact hk.calls cpu d hd (hthread ▸ htgid)
  · rcases entryId_step h tgid with ⟨hins, -⟩ | ⟨-, -, hentry⟩ | ⟨-, -, hentry⟩
    · exact absurd hins (hk.not_inserts l)
    · exact hentry
    · exact hentry.trans hk.entry

/-- Until its leader starts, nothing happens to a process. -/
theorem absent_of_not_spawn {ls : List (KernelStep n)} (hls : .spawn (leader tgid) ∉ ls)
    (hk : k.Absent tgid) (h : exec step k ls = some k') :
    k'.Absent tgid ∧ Meets step (InsertsUnderLeader tgid) k ls := by
  have hmeets : Meets step (fun _ l => l ≠ .spawn (leader tgid)) k ls :=
    meets_ne_of_notMem hls k
  have hD : ∀ (k : Kernel n) l k', l ≠ .spawn (leader tgid) → k.Absent tgid →
      k.step l = some k' → k'.Absent tgid := fun k l k' hl hk h => hk.step hl h
  refine ⟨exec_invariant_of_meets hD hmeets hk h, meets_of_invariant hD ?_ hmeets hk⟩
  exact fun k l hk hins => absurd hins (hk.not_inserts l)

end Kernel

/-- **When the entry of a process goes away**: in any run of any number of threads in which
the pid of a process is not reused, once all its threads have exited its entry is gone
exactly when none of them inserted it while the leader was not there. -/
theorem stats_clear_iff {n : ℕ} (tgid : UInt32) (ls : List (KernelStep n)) (k : Kernel n)
    (h : exec Kernel.step .boot ls = some k) (hreuse : ls.count (.spawn (leader tgid)) ≤ 1)
    (hgone : ∀ t ∈ k.live, t.tgid ≠ tgid) :
    k.stats.lookup tgid = none ↔ Meets Kernel.step (Kernel.InsertsUnderLeader tgid) .boot ls := by
  have hleader : leader tgid ∉ k.live := fun hlive => hgone _ hlive rfl
  by_cases hspawn : .spawn (leader tgid) ∈ ls
  · -- Up to the start of the leader there is nothing; from then on, the invariant is exact.
    obtain ⟨ls₁, ls₂, rfl⟩ := List.append_of_mem hspawn
    obtain ⟨k₁, h₁, h₂⟩ := exec_append_eq_some.mp h
    obtain ⟨k₂, hstep, h₂⟩ := exec_cons_eq_some.mp h₂
    rw [List.count_append, List.count_cons_self] at hreuse
    have hbefore : .spawn (leader tgid) ∉ ls₁ := List.count_eq_zero.mp (by omega)
    have hafter : .spawn (leader tgid) ∉ ls₂ := List.count_eq_zero.mp (by omega)
    obtain ⟨habsent, hmeets₁⟩ := Kernel.absent_of_not_spawn hbefore (Kernel.absent_boot tgid) h₁
    have hstart : k₂.EntryUnderLeader tgid :=
      fun _ => (Kernel.mem_live_step hstep _).mpr (Or.inl rfl)
    have hexact : k.EntryUnderLeader tgid ↔
        Meets Kernel.step (Kernel.InsertsUnderLeader tgid) k₂ ls₂ :=
      exec_good_iff_meets_of_meets
        (fun k l k' hl hk hs => Kernel.entry_under_leader_iff hl hk hs)
        (fun k l k' hl hk hs => Kernel.not_entry_under_leader hl hk hs)
        (meets_ne_of_notMem hafter k₂) hstart h₂
    have hmeets : Meets Kernel.step (Kernel.InsertsUnderLeader tgid) .boot
          (ls₁ ++ .spawn (leader tgid) :: ls₂) ↔
        Meets Kernel.step (Kernel.InsertsUnderLeader tgid) k₂ ls₂ := by
      rw [meets_append, and_iff_right hmeets₁]
      constructor
      · intro hall
        exact (hall k₁ h₁).2 k₂ hstep
      · intro hrest k₁' hk₁'
        obtain rfl := Option.some.inj (h₁.symm.trans hk₁')
        refine ⟨fun hins => absurd hins (habsent.not_inserts _), fun k₂' hk₂' => ?_⟩
        obtain rfl := Option.some.inj (hstep.symm.trans hk₂')
        exact hrest
    rw [hmeets, ← hexact, ← Kernel.entryId_eq_none]
    constructor
    · intro hnone hsome
      exact absurd hnone hsome
    · intro hunder
      by_contra hsome
      exact hleader (hunder hsome)
  · obtain ⟨habsent, hmeets⟩ := Kernel.absent_of_not_spawn hspawn (Kernel.absent_boot tgid) h
    exact iff_of_true (Kernel.entryId_eq_none.mp habsent.entry) hmeets

/-- A process whose leader exits last, after another thread's first traffic. -/
theorem stats_clear_two_threads :
    Meets Kernel.step (Kernel.InsertsUnderLeader 10) (.boot : Kernel 2)
      ([.spawn ⟨10, 10⟩, .spawn ⟨11, 10⟩] ++ firstCall 0 ⟨11, 10⟩ 100 ++
        [.exit ⟨11, 10⟩, .exit ⟨10, 10⟩]) := by
  obtain ⟨k, hk, hend⟩ := exists_exec_of_any Kernel.step (.boot : Kernel 2)
    ([.spawn ⟨10, 10⟩, .spawn ⟨11, 10⟩] ++ firstCall 0 ⟨11, 10⟩ 100 ++
      [.exit ⟨11, 10⟩, .exit ⟨10, 10⟩])
    (fun k => decide (∀ t ∈ k.live, t.tgid ≠ 10) && (k.stats.lookup 10).isNone) (by decide +kernel)
  simp only [Bool.and_eq_true, decide_eq_true_eq, Option.isNone_iff_eq_none] at hend
  exact (stats_clear_iff 10 _ k hk (by decide) hend.1).mp hend.2

/-- A thread that sends after its leader has exited leaves an entry. -/
theorem stats_leaked :
    ∃ (ls : List (KernelStep 1)) (k : Kernel 1), exec Kernel.step .boot ls = some k ∧
      ls.count (.spawn (leader 10)) ≤ 1 ∧ (∀ t ∈ k.live, t.tgid ≠ 10) ∧
      k.stats.lookup 10 ≠ none := by
  obtain ⟨k, hk, hend⟩ := exists_exec_of_any Kernel.step (.boot : Kernel 1)
    ([.spawn ⟨10, 10⟩, .spawn ⟨11, 10⟩, .exit ⟨10, 10⟩] ++ firstCall 0 ⟨11, 10⟩ 100 ++
      [.exit ⟨11, 10⟩])
    (fun k => decide (∀ t ∈ k.live, t.tgid ≠ 10) && (k.stats.lookup 10).isSome) (by decide +kernel)
  simp only [Bool.and_eq_true, decide_eq_true_eq, Option.isSome_iff_ne_none] at hend
  exact ⟨_, k, hk, by decide, hend.1, hend.2⟩

end Procnet
