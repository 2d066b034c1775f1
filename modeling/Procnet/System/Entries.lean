import Procnet.Bpf.Events
import Procnet.Bpf.Exit
import Procnet.System.History

/-!
# Entries in time

The pid of a process does not tell the entries apart that `STATS` had for it one after the
other, but their numbers do. Three facts relate them to what the daemon gets to see.

* Entries come in order: an entry that is there later has been there, or is newer
  (`Kernel.Ages`, `ages_exec`).
* Each entry is announced at most once, and what is announced has been inserted for that
  process (`Announced`, `announced_exec`).
* As long as a pid is not reused, and unless a thread inserts an entry after its leader has
  exited, it has one entry (`entry_unique`).
-/

namespace Procnet

open Lib

variable {n : ℕ}

/-- The entry of a start event that is applied. -/
def Obs.applied? : Obs n → Option ℕ
  | .applied d => some d.entry
  | .wrote _ | .found .. | .lost _ | .reset => none

/-! ### Order -/

/-- How the entries of a later state relate to those of an earlier one. -/
structure Kernel.Ages (k k' : Kernel n) : Prop where
  nextId_le : k.nextId ≤ k'.nextId
  entry : ∀ tgid id, k'.entryId tgid = some id → k.entryId tgid = some id ∨ k.nextId ≤ id

namespace Kernel

variable {k k' k'' : Kernel n}

theorem Ages.refl (k : Kernel n) : k.Ages k := ⟨Nat.le_refl _, fun _ _ h => Or.inl h⟩

theorem Ages.trans (h : k.Ages k') (h' : k'.Ages k'') : k.Ages k'' := by
  refine ⟨Nat.le_trans h.nextId_le h'.nextId_le, fun tgid id hid => ?_⟩
  rcases h'.entry tgid id hid with hid' | hle
  · exact h.entry tgid id hid'
  · exact Or.inr (Nat.le_trans h.nextId_le hle)

theorem ages_step {l : KernelStep n} (h : k.step l = some k') : k.Ages k' := by
  refine ⟨nextId_le_step h, fun tgid id hid => ?_⟩
  rcases entryId_step h tgid with ⟨-, -, hnew, -⟩ | ⟨-, -, hnone⟩ | ⟨-, -, hsame⟩
  · exact Or.inr (Nat.le_of_eq (Option.some.inj (hnew.symm.trans hid)))
  · rw [hnone] at hid
    cases hid
  · exact Or.inl (hsame ▸ hid)

end Kernel

namespace System

variable {e : Endian} {s s' : System n} {hist : List (Obs n)}

/-- What a step of the system does to the kernel: a step of the kernel, or nothing but to the
ring buffer. -/
theorem kernel_step_cases {l : SystemStep n} (h : s.step e l = some s') :
    (∃ l', l = .kernel l' ∧ s.kernel.step l' = some s'.kernel) ∨
      (∀ l', l ≠ .kernel l') ∧ ∃ events, s'.kernel = { s.kernel with events := events } := by
  rcases step_cases h with ⟨l', k, rfl, hstep, rfl⟩ | ⟨rfl, -, rfl⟩ | ⟨rfl, -, rfl⟩ |
    ⟨name, r, events, rfl, -, hevents, -, rfl⟩ | ⟨rfl, -, rfl⟩ | ⟨d, queue, rfl, -, hqueue, rfl⟩ |
    ⟨rfl, -, -, rfl⟩ | ⟨done, i, todo, rfl, -, hprocs, hidx, rfl⟩ | ⟨rfl, -, rfl⟩
  · exact Or.inl ⟨l', rfl, hstep⟩
  · exact Or.inr ⟨nofun, _, rfl⟩
  · exact Or.inr ⟨nofun, _, rfl⟩
  · exact Or.inr ⟨nofun, _, rfl⟩
  · exact Or.inr ⟨nofun, _, rfl⟩
  · exact Or.inr ⟨nofun, _, rfl⟩
  · exact Or.inr ⟨nofun, _, rfl⟩
  · exact Or.inr ⟨nofun, _, rfl⟩
  · exact Or.inr ⟨nofun, _, rfl⟩

/-- **An entry that is there later has been there, or is newer.** -/
theorem ages_exec {ls : List (SystemStep n)} (h : exec (step e) s ls = some s') :
    s.kernel.Ages s'.kernel := by
  refine exec_relation (R := fun s s' : System n => s.kernel.Ages s'.kernel)
    (fun s => Kernel.Ages.refl s.kernel) (fun _ _ _ => Kernel.Ages.trans)
    (fun s l s' hstep => ?_) h
  rcases kernel_step_cases hstep with ⟨l', -, hk⟩ | ⟨-, events, heq⟩
  · exact Kernel.ages_step hk
  · rw [heq]
    exact ⟨Nat.le_refl _, fun _ _ hid => Or.inl hid⟩

/-- **A process has its entries in the order of their numbers.** -/
theorem entryId_le {ls ls' : List (SystemStep n)} (h : exec (step e) boot ls = some s)
    (hs : exec (step e) s ls' = some s') {pid : UInt32} {id id' : ℕ}
    (hid : s.kernel.entryId pid = some id) (hid' : s'.kernel.entryId pid = some id') :
    id ≤ id' := by
  have hlt := (follows_exec h).ledger.lt_nextId pid id hid
  rcases (ages_exec hs).entry pid id' hid' with hsame | hle
  · exact Nat.le_of_eq (Option.some.inj (hid.symm.trans hsame))
  · omega

/-- Where the entry of a process has been deleted in between, a later one is newer. -/
theorem entryId_lt {ls ls' ls'' : List (SystemStep n)} {u : System n}
    (h : exec (step e) boot ls = some s) (hu : exec (step e) s ls' = some u)
    (hs : exec (step e) u ls'' = some s') {pid : UInt32} {id id' : ℕ}
    (hid : s.kernel.entryId pid = some id) (hnone : u.kernel.entryId pid = none)
    (hid' : s'.kernel.entryId pid = some id') : id < id' := by
  have hlt := (follows_exec h).ledger.lt_nextId pid id hid
  have hnext := (ages_exec hu).nextId_le
  rcases (ages_exec hs).entry pid id' hid' with hsame | hle
  · rw [hnone] at hsame
    cases hsame
  · omega

/-! ### Announcements -/

/-- Whether a call has added to an entry of a process. -/
def Written (hist : List (Obs n)) (tgid : UInt32) (id : ℕ) : Prop :=
  ∃ w ∈ writesOf hist, w.entry = id ∧ w.call.thread.tgid = tgid

theorem Written.append {tgid : UInt32} {id : ℕ} (h : Written hist tgid id) (hist' : List (Obs n)) :
    Written (hist ++ hist') tgid id := by
  obtain ⟨w, hw, hid⟩ := h
  rw [Written, writesOf_append]
  exact ⟨w, List.mem_append_left _ hw, hid⟩

/-- What a process has written to has been its entry. -/
theorem entry_of_written {ls : List (SystemStep n)} (h : exec (step e) boot ls = some s)
    {tgid : UInt32} {id : ℕ} (hw : Written (history e ls) tgid id) :
    ∃ ls₁ ls₂ u, ls = ls₁ ++ ls₂ ∧ exec (step e) boot ls₁ = some u ∧
      exec (step e) u ls₂ = some s ∧ u.kernel.entryId tgid = some id := by
  obtain ⟨w, hw, rfl, rfl⟩ := hw
  obtain ⟨o, ho, hwrite⟩ := List.mem_filterMap.mp hw
  obtain ⟨before, after, hhist⟩ := List.append_of_mem ho
  obtain ⟨ls₁, l, ls₂, u, u', rfl, hu, hstep, hs, -, hobs, -⟩ := exists_step_of_observe h hhist
  rcases obs_cases hobs with ⟨l', w', rfl, hmem, rfl⟩ | ⟨d, -, -, rfl⟩ | ⟨i, entry, -, -, rfl⟩ |
    ⟨i, -, -, rfl⟩ | ⟨-, rfl⟩
  · obtain rfl : w' = w := Option.some.inj hwrite
    refine ⟨ls₁ ++ [.kernel l'], ls₂, u', by simp, ?_, hs, ?_⟩
    · rw [exec_append, hu, Option.bind_some, exec_cons, hstep]
      rfl
    · obtain ⟨k, hk, rfl⟩ := Option.map_eq_some_iff.mp hstep
      exact (Kernel.entry_of_writes hk hmem).1
  · cases hwrite
  · cases hwrite
  · cases hwrite
  · cases hwrite

/-- The entries that have been announced, in the order of their records. -/
def announced (s : System n) (hist : List (Obs n)) : List ℕ :=
  hist.filterMap Obs.applied? ++ s.queue.map Drained.entry ++
    s.kernel.events.map StartRecord.entry

/-- **An entry is announced at most once**, for the process it was inserted for. -/
structure Announced (s : System n) (hist : List (Obs n)) : Prop where
  announcing : s.kernel.Announcing
  nodup : (s.announced hist).Nodup
  lt_nextId : ∀ id ∈ s.announced hist, id < s.kernel.nextId
  notMem : ∀ cpu, ∀ c ∈ s.kernel.calls cpu, ∀ id, c.pc = .reserve id → id ∉ s.announced hist
  calls : ∀ cpu, ∀ c ∈ s.kernel.calls cpu, ∀ id ∈ c.pc.announces, Written hist c.thread.tgid id
  events : ∀ r ∈ s.kernel.events, Written hist r.tgid r.entry
  queue : ∀ d ∈ s.queue, Written hist d.event.pid d.entry
  applied : ∀ d, .applied d ∈ hist → Written hist d.event.pid d.entry

theorem announced_boot : (boot : System n).Announced [] := by
  constructor
  · exact Kernel.announcing_boot
  all_goals simp [boot, Kernel.boot, announced]

/-- A step of the kernel adds at most a write to the history. -/
theorem exists_wrote_kernel (s : System n) (l : KernelStep n) :
    ∃ ws : List (Write n), (s.obs (.kernel l)).toList = ws.map .wrote ∧
      ∀ w, w ∈ ws ↔ w ∈ s.kernel.writes l := by
  rw [obs]
  cases hw : s.kernel.writes l with
  | none => exact ⟨[], rfl, by simp⟩
  | some w => exact ⟨[w], rfl, by simp [eq_comm]⟩

theorem announced_kernel (hs : s.Announced hist) {l : KernelStep n} {k : Kernel n}
    (h : s.kernel.step l = some k) :
    Announced { s with kernel := k } (hist ++ (s.obs (.kernel l)).toList) := by
  obtain ⟨ws, hobs, hws⟩ := exists_wrote_kernel s l
  have hnext := Kernel.nextId_le_step h
  have happlied : (hist ++ ws.map Obs.wrote).filterMap Obs.applied? =
      hist.filterMap Obs.applied? := by
    rw [List.filterMap_append, List.filterMap_map]
    simp [Function.comp_def, Obs.applied?]
  have hlist : announced { s with kernel := k } (hist ++ ws.map Obs.wrote) = s.announced hist ∨
      ∃ cpu, ∃ d ∈ s.kernel.calls cpu, ∃ id, l = .run cpu ∧ d.pc = .reserve id ∧
        announced { s with kernel := k } (hist ++ ws.map Obs.wrote) = s.announced hist ++ [id] := by
    simp only [announced, happlied]
    rcases Kernel.entries_events_step h with hsame | ⟨cpu, d, hd, id, hl, hpc, hnew⟩
    · exact Or.inl (by rw [hsame])
    · exact Or.inr ⟨cpu, d, hd, id, hl, hpc, by rw [hnew, List.append_assoc, List.append_assoc,
        List.append_assoc]⟩
  rw [hobs]
  refine ⟨hs.announcing.step h, ?_, ?_, ?_, ?_, ?_, ?_, ?_⟩
  · -- An entry is announced once: a call that is about to announce it has not done so before.
    rcases hlist with hsame | ⟨cpu, d, hd, id, -, hpc, hnew⟩
    · rw [hsame]
      exact hs.nodup
    · rw [hnew, ← List.concat_eq_append]
      exact hs.nodup.concat (hs.notMem cpu d hd id hpc)
  · intro id hid
    rcases hlist with hsame | ⟨cpu, d, hd, id', -, hpc, hnew⟩
    · exact Nat.lt_of_lt_of_le (hs.lt_nextId id (hsame ▸ hid)) hnext
    · rw [hnew] at hid
      rcases List.mem_append.mp hid with hid | hid
      · exact Nat.lt_of_lt_of_le (hs.lt_nextId id hid) hnext
      · obtain rfl := List.mem_singleton.mp hid
        exact Nat.lt_of_lt_of_le (hs.announcing.lt_nextId cpu d hd id (by rw [hpc]; rfl)) hnext
  · -- What is about to be announced is not announced yet.
    intro cpu c hc id hpc hid
    have hann : id ∈ c.pc.announces := by rw [hpc]; rfl
    rcases Kernel.announces_step h hc hann with ⟨hold, hl⟩ |
      ⟨d, hd, hl, -, ⟨⟨cpu', d', hd', hl', hpc', -⟩, -, rfl⟩ | ⟨-, hpc', -⟩⟩
    · rcases hlist with hsame | ⟨cpu', d, hd, id', rfl, hpc', hnew⟩
      · exact hs.notMem cpu c hold id hpc (hsame ▸ hid)
      · rw [hnew] at hid
        rcases List.mem_append.mp hid with hid | hid
        · exact hs.notMem cpu c hold id hpc hid
        · obtain rfl := List.mem_singleton.mp hid
          refine hl (congrArg _ ?_)
          exact hs.announcing.unique cpu' cpu d hd c hold id (by rw [hpc']; rfl) hann
    · rcases hlist with hsame | ⟨cpu'', d'', hd'', id', hl'', hpc'', hnew⟩
      · exact Nat.lt_irrefl _ (hs.lt_nextId _ (hsame ▸ hid))
      · obtain rfl := KernelStep.run.inj (hl'.symm.trans hl'')
        obtain rfl := Option.some.inj (hd'.symm.trans hd'')
        exact absurd (hpc'.symm.trans hpc'') nofun
    · exact absurd (hpc.symm.trans hpc') nofun
  · -- A call announces an entry that its process has been written to.
    intro cpu c hc id hid
    rcases Kernel.announces_step h hc hid with ⟨hold, -⟩ |
      ⟨d, hd, -, hthread, ⟨hins, -, rfl⟩ | ⟨hpc, -⟩⟩
    · exact (hs.calls cpu c hold id hid).append _
    · obtain ⟨w, hw, hentry, htgid⟩ := Kernel.exists_writes_of_inserts hins
      refine ⟨w, ?_, hentry, htgid⟩
      rw [writesOf_append]
      refine List.mem_append_right _ (List.mem_filterMap.mpr ⟨.wrote w, ?_, rfl⟩)
      exact List.mem_map_of_mem ((hws w).mpr hw)
    · rw [← hthread]
      exact (hs.calls cpu d hd id (by rw [hpc]; rfl)).append _
  · intro r hr
    rcases Kernel.mem_events_step h hr with ⟨r', hr', htgid, hentry⟩ | ⟨cpu, d, hd, -, htgid, hpc⟩
    · rw [← htgid, ← hentry]
      exact (hs.events r' hr').append _
    · rw [← htgid]
      exact (hs.calls cpu d hd r.entry (by rw [hpc]; rfl)).append _
  · intro d hd
    exact (hs.queue d hd).append _
  · intro d hd
    refine (hs.applied d ?_).append _
    rcases List.mem_append.mp hd with hd | hd
    · exact hd
    · obtain ⟨w, -, hw⟩ := List.mem_map.mp hd
      cases hw

/-- Other observations announce nothing. -/
theorem Announced.concat (hs : s.Announced hist) (hkernel : s'.kernel = s.kernel)
    (hqueue : s'.queue = s.queue) {os : List (Obs n)} (hos : ∀ o ∈ os, o.applied? = none) :
    s'.Announced (hist ++ os) := by
  have hlist : s'.announced (hist ++ os) = s.announced hist := by
    have hnone : os.filterMap Obs.applied? = [] := List.filterMap_eq_nil_iff.mpr hos
    rw [announced, announced, List.filterMap_append, hnone, List.append_nil, hkernel, hqueue]
  constructor
  · exact hkernel ▸ hs.announcing
  · exact hlist ▸ hs.nodup
  · exact hlist ▸ hkernel ▸ hs.lt_nextId
  · exact hlist ▸ hkernel ▸ hs.notMem
  · intro cpu c hc id hid
    exact (hs.calls cpu c (hkernel ▸ hc) id hid).append os
  · intro r hr
    exact (hs.events r (hkernel ▸ hr)).append os
  · intro d hd
    exact (hs.queue d (hqueue ▸ hd)).append os
  · intro d hd
    rcases List.mem_append.mp hd with hd | hd
    · exact (hs.applied d hd).append os
    · exact absurd (hos _ hd) nofun

theorem announced_drain (hs : s.Announced hist) {r : StartRecord} {events : List StartRecord}
    (hevents : s.kernel.events = r :: events) (hsub : r.submitted = true) (name : String) :
    Announced { s with
      kernel := { s.kernel with events := events }
      queue := s.queue ++ [⟨⟨r.tgid, name⟩, r.entry⟩] } hist := by
  have hlist : announced { s with
      kernel := { s.kernel with events := events }
      queue := s.queue ++ [⟨⟨r.tgid, name⟩, r.entry⟩] } hist = s.announced hist := by
    simp [announced, hevents]
  constructor
  · exact hs.announcing.withoutHead hevents hsub
  · exact hlist ▸ hs.nodup
  · exact hlist ▸ hs.lt_nextId
  · exact hlist ▸ hs.notMem
  · exact hs.calls
  · intro r' hr'
    exact hs.events r' (hevents ▸ List.mem_cons_of_mem _ hr')
  · intro d hd
    rcases List.mem_append.mp hd with hd | hd
    · exact hs.queue d hd
    · obtain rfl := List.mem_singleton.mp hd
      exact hs.events r (hevents ▸ List.mem_cons_self ..)
  · exact hs.applied

theorem announced_apply (hs : s.Announced hist) {d : Drained} {queue : List Drained}
    (hqueue : s.queue = d :: queue) (c : StatsCollector) :
    Announced { s.withStats c with queue := queue } (hist ++ [.applied d]) := by
  have hlist : announced { s.withStats c with queue := queue } (hist ++ [.applied d]) =
      s.announced hist := by
    simp [announced, hqueue, Obs.applied?]
  constructor
  · exact hs.announcing
  · exact hlist ▸ hs.nodup
  · exact hlist ▸ hs.lt_nextId
  · exact hlist ▸ hs.notMem
  · intro cpu c hc id hid
    exact (hs.calls cpu c hc id hid).append _
  · intro r hr
    exact (hs.events r hr).append _
  · intro d' hd'
    exact (hs.queue d' (hqueue ▸ List.mem_cons_of_mem _ hd')).append _
  · intro d' hd'
    rcases List.mem_append.mp hd' with hd' | hd'
    · exact (hs.applied d' hd').append _
    · obtain rfl := Obs.applied.inj (List.mem_singleton.mp hd')
      exact (hs.queue d' (hqueue ▸ List.mem_cons_self ..)).append _

/-- **The step lemma.** -/
theorem announced_step (hs : s.Announced hist) {l : SystemStep n} (h : s.step e l = some s') :
    s'.Announced (hist ++ (s.obs l).toList) := by
  rcases step_cases h with ⟨l', k, rfl, hstep, rfl⟩ | ⟨rfl, -, rfl⟩ | ⟨rfl, -, rfl⟩ |
    ⟨name, r, events, rfl, -, hevents, hsub, rfl⟩ | ⟨rfl, -, rfl⟩ |
    ⟨d, queue, rfl, -, hqueue, rfl⟩ | ⟨rfl, -, -, rfl⟩ |
    ⟨done, i, todo, rfl, -, hprocs, hidx, rfl⟩ | ⟨rfl, -, rfl⟩
  · exact announced_kernel hs hstep
  · refine hs.concat (by rfl) (by rfl) ?_
    simp [obs, Obs.applied?]
  · refine hs.concat (by rfl) (by rfl) ?_
    simp [obs]
  · rw [obs, Option.toList_none, List.append_nil]
    exact announced_drain hs hevents hsub name
  · refine hs.concat (by rfl) (by rfl) ?_
    simp [obs]
  · rw [obs, hqueue]
    exact announced_apply hs hqueue _
  · refine hs.concat (by rfl) (by rfl) ?_
    simp [obs]
  · rcases obs_visit hprocs hidx with ⟨entry, -, hobs, -⟩ | ⟨-, hobs, -⟩
    · refine hs.concat (by rfl) (by rfl) ?_
      simp [hobs, Obs.applied?]
    · refine hs.concat (by rfl) (by rfl) ?_
      simp [hobs, Obs.applied?]
  · refine hs.concat (by rfl) (by rfl) ?_
    simp [obs]

/-- **No entry is announced twice in a run.** -/
theorem announced_exec {ls : List (SystemStep n)} (h : exec (step e) boot ls = some s) :
    s.Announced (history e ls) :=
  exec_observe (C := fun _ _ => True) (R := Announced)
    (fun _ _ _ _ _ hs hstep => announced_step hs hstep)
    (meets_of_forall (fun _ _ => trivial) _ _) announced_boot h

/-! ### One entry per process -/

section

variable {pid : UInt32}

theorem absent_step {l : SystemStep n} (hl : l ≠ .kernel (.spawn (leader pid)))
    (hs : s.kernel.Absent pid) (h : s.step e l = some s') : s'.kernel.Absent pid := by
  rcases kernel_step_cases h with ⟨l', rfl, hk⟩ | ⟨-, events, heq⟩
  · exact hs.step (fun hl' => hl (congrArg _ hl')) hk
  · rw [heq]
    exact ⟨hs.live, hs.calls, hs.entry⟩

/-- An entry without its leader stays, as long as its pid is not reused. -/
theorem not_entry_under_leader_step {l : SystemStep n} (hl : l ≠ .kernel (.spawn (leader pid)))
    (hs : ¬ s.kernel.EntryUnderLeader pid) (h : s.step e l = some s') :
    ¬ s'.kernel.EntryUnderLeader pid := by
  rcases kernel_step_cases h with ⟨l', rfl, hk⟩ | ⟨-, events, heq⟩
  · exact Kernel.not_entry_under_leader (fun hl' => hl (congrArg _ hl')) hs hk
  · rw [heq]
    exact hs

/-- The leader is there and so is the entry, or the leader has exited. -/
def EntryOrGone (pid : UInt32) (id : ℕ) (s : System n) : Prop :=
  (s.kernel.entryId pid = some id ∧ leader pid ∈ s.kernel.live) ∨ leader pid ∉ s.kernel.live

theorem entryOrGone_step {id : ℕ} {l : SystemStep n} (hl : l ≠ .kernel (.spawn (leader pid)))
    (hs : s.EntryOrGone pid id) (h : s.step e l = some s') : s'.EntryOrGone pid id := by
  rcases kernel_step_cases h with ⟨l', rfl, hk⟩ | ⟨-, events, heq⟩
  · have hlive := Kernel.mem_live_step hk (leader pid)
    have hspawn : l' ≠ .spawn (leader pid) := fun hl' => hl (congrArg _ hl')
    rcases hs with ⟨hid, hleader⟩ | hgone
    · rcases Kernel.entryId_step hk pid with ⟨-, hnone, -⟩ | ⟨rfl, -, -⟩ | ⟨-, hexit, hsame⟩
      · rw [hnone] at hid
        cases hid
      · refine Or.inr ?_
        rw [hlive]
        simp
      · exact Or.inl ⟨hsame.trans hid, hlive.mpr (Or.inr ⟨hleader, hexit⟩)⟩
    · refine Or.inr fun hleader => ?_
      rcases hlive.mp hleader with rfl | ⟨hold, -⟩
      · exact hspawn rfl
      · exact hgone hold
  · rw [EntryOrGone, heq]
    exact hs

/-- A pid that has an entry has been started. -/
theorem spawn_mem_of_entryId {ls : List (SystemStep n)} (h : exec (step e) boot ls = some s)
    (hentry : s.kernel.entryId pid ≠ none) : .kernel (.spawn (leader pid)) ∈ ls := by
  by_contra hspawn
  have habsent : s.kernel.Absent pid :=
    exec_invariant_of_meets (I := fun s : System n => s.kernel.Absent pid)
      (fun _ _ _ hl hs hstep => absent_step hl hs hstep) (meets_ne_of_notMem hspawn _)
      (Kernel.absent_boot pid) h
  exact hentry habsent.entry

/-- Two entries that a pid had one after the other are the same, if the pid is not reused and
has no entry in the end. -/
theorem entryId_eq_of_exec {ls₁ ls₂ ls₃ : List (SystemStep n)} {u v : System n}
    (hu : exec (step e) boot ls₁ = some u) (hv : exec (step e) u ls₂ = some v)
    (hs : exec (step e) v ls₃ = some s)
    (hreuse : (ls₁ ++ ls₂ ++ ls₃).count (.kernel (.spawn (leader pid))) ≤ 1)
    (hnone : s.kernel.entryId pid = none) {id id' : ℕ} (hid : u.kernel.entryId pid = some id)
    (hid' : v.kernel.entryId pid = some id') : id = id' := by
  have hspawn : .kernel (.spawn (leader pid)) ∈ ls₁ :=
    spawn_mem_of_entryId hu (by rw [hid]; exact nofun)
  have hpos : 0 < ls₁.count (.kernel (.spawn (leader pid))) := List.count_pos_iff.mpr hspawn
  rw [List.count_append, List.count_append] at hreuse
  have h₂ : .kernel (.spawn (leader pid)) ∉ ls₂ := List.count_eq_zero.mp (by omega)
  have h₃ : .kernel (.spawn (leader pid)) ∉ ls₃ := List.count_eq_zero.mp (by omega)
  have hkept : ∀ {w : System n} {ls : List (SystemStep n)},
      .kernel (.spawn (leader pid)) ∉ ls → exec (step e) w ls = some s →
        w.kernel.EntryUnderLeader pid := by
    intro w ls hls hw
    by_contra horphan
    have hend : ¬ s.kernel.EntryUnderLeader pid :=
      exec_invariant_of_meets (I := fun s : System n => ¬ s.kernel.EntryUnderLeader pid)
        (fun _ _ _ hl hs hstep => not_entry_under_leader_step hl hs hstep)
        (meets_ne_of_notMem hls _) horphan hw
    exact hend fun hentry => absurd hnone hentry
  have hleader : leader pid ∈ u.kernel.live := by
    have h₂₃ : .kernel (.spawn (leader pid)) ∉ ls₂ ++ ls₃ := by simp [h₂, h₃]
    refine hkept h₂₃ ?_ (by rw [hid]; exact nofun)
    rw [exec_append, hv]
    exact hs
  have hgoes : v.EntryOrGone pid id :=
    exec_invariant_of_meets (I := EntryOrGone pid id)
      (fun _ _ _ hl hs hstep => entryOrGone_step hl hs hstep) (meets_ne_of_notMem h₂ _)
      (Or.inl ⟨hid, hleader⟩) hv
  rcases hgoes with ⟨hsame, -⟩ | hgone
  · exact Option.some.inj (hsame.symm.trans hid')
  · exact absurd (hkept h₃ hs (by rw [hid']; exact nofun)) hgone

/-- **A pid that is not reused and has no entry in the end had one entry at most.** -/
theorem entry_unique {ls : List (SystemStep n)} (h : exec (step e) boot ls = some s)
    (hreuse : ls.count (.kernel (.spawn (leader pid))) ≤ 1)
    (hnone : s.kernel.entryId pid = none) {ls₁ ls₁' ls₂ ls₂' : List (SystemStep n)}
    (hls : ls = ls₁ ++ ls₁') (hls' : ls = ls₂ ++ ls₂') {u v : System n}
    (hu : exec (step e) boot ls₁ = some u) (hv : exec (step e) boot ls₂ = some v) {id id' : ℕ}
    (hid : u.kernel.entryId pid = some id) (hid' : v.kernel.entryId pid = some id') : id = id' := by
  subst hls
  have hone : ∀ {a b c : List (SystemStep n)} {u v : System n} {id id' : ℕ},
      exec (step e) boot (a ++ b ++ c) = some s →
      (a ++ b ++ c).count (.kernel (.spawn (leader pid))) ≤ 1 →
      exec (step e) boot a = some u → exec (step e) boot (a ++ b) = some v →
      u.kernel.entryId pid = some id → v.kernel.entryId pid = some id' → id = id' := by
    intro a b c u v id id' hs hcount hu hv hid hid'
    obtain ⟨u', hu', huv⟩ := exec_append_eq_some.mp hv
    obtain rfl := Option.some.inj (hu.symm.trans hu')
    obtain ⟨v', hv', hvs⟩ := exec_append_eq_some.mp hs
    obtain rfl := Option.some.inj (hv.symm.trans hv')
    exact entryId_eq_of_exec hu huv hvs hcount hnone hid hid'
  rcases List.append_eq_append_iff.mp hls' with ⟨b, rfl, rfl⟩ | ⟨b, rfl, rfl⟩
  · rw [← List.append_assoc] at h hreuse
    exact hone h hreuse hu hv hid hid'
  · exact (hone h hreuse hv hu hid' hid).symm

end

end System

end Procnet
