import Procnet.System.History

/-!
# What the daemon has seen of a process

Between the start event of a process and its end, its record changes only when a lookup
finds the process, and then it holds what the lookup found (`record_since`). What the record
has to do with the bytes that were counted is decided by the part of the history up to the
last lookup that found it (`seenOf`, `lastFound_cases`), and by what a lookup finds
(`counter_found`).
-/

namespace Procnet

open Lib

variable {n : ℕ}

namespace Obs

/-- What a lookup finds of a process. -/
def finds (pid : UInt32) : Obs n → Option ProcStats
  | found i _ new => if i.pid = pid then some new else none
  | wrote _ | applied _ | lost _ | reset => none

/-- Whether the start event of a process is applied. -/
def starts (pid : UInt32) : Obs n → Prop
  | applied d => d.event.pid = pid
  | wrote _ | found .. | lost _ | reset => False

instance (pid : UInt32) : DecidablePred (starts (n := n) pid)
  | applied d => inferInstanceAs (Decidable (d.event.pid = pid))
  | wrote _ | found .. | lost _ | reset => inferInstanceAs (Decidable False)

end Obs

/-- **What an observation other than a start event does to a record**, if it leaves one. -/
theorem Obs.track_eq_some {pid : UInt32} {o : Obs n} (ho : ¬ o.starts pid)
    {r : Option ProcInfo} {i : ProcInfo} (h : o.track pid r = some i) :
    ∃ j, r = some j ∧ ((∃ new, o.finds pid = some new ∧ i = j.sampled new) ∨
      (o.finds pid = none ∧ i = j) ∨ (o = .reset ∧ i = j.cleared)) := by
  cases o with
  | wrote w => exact ⟨i, h, Or.inr (Or.inl ⟨rfl, rfl⟩)⟩
  | applied d =>
    have hne : d.event.pid ≠ pid := ho
    rw [track, if_neg hne] at h
    exact ⟨i, h, Or.inr (Or.inl ⟨rfl, rfl⟩)⟩
  | found j entry new =>
    rw [track] at h
    rw [finds]
    split_ifs at h ⊢ with hj
    · obtain ⟨j', hj', rfl⟩ := Option.map_eq_some_iff.mp h
      exact ⟨j', hj', Or.inl ⟨new, rfl, rfl⟩⟩
    · exact ⟨i, h, Or.inr (Or.inl ⟨rfl, rfl⟩)⟩
  | lost j =>
    rw [track] at h
    split_ifs at h
    exact ⟨i, h, Or.inr (Or.inl ⟨rfl, rfl⟩)⟩
  | reset =>
    obtain ⟨j, hj, rfl⟩ := Option.map_eq_some_iff.mp h
    exact ⟨j, hj, Or.inr (Or.inr ⟨rfl, rfl⟩)⟩

/-- What the last lookup that found a process found. -/
def lastFound (pid : UInt32) (hist : List (Obs n)) : ProcStats :=
  latest (Obs.finds pid) default hist

/-- A history up to the last lookup that found a process. -/
def seenOf (pid : UInt32) (hist : List (Obs n)) : List (Obs n) :=
  hist.rdropWhile fun o => (o.finds pid).isNone

/-- A history after the last lookup that found a process. -/
def unseenOf (pid : UInt32) (hist : List (Obs n)) : List (Obs n) :=
  hist.rtakeWhile fun o => (o.finds pid).isNone

variable {pid : UInt32} {hist : List (Obs n)}

theorem seenOf_append_unseenOf (pid : UInt32) (hist : List (Obs n)) :
    seenOf pid hist ++ unseenOf pid hist = hist :=
  List.rdropWhile_append_rtakeWhile

@[simp] theorem lastFound_concat (pid : UInt32) (hist : List (Obs n)) (o : Obs n) :
    lastFound pid (hist ++ [o]) = (o.finds pid).getD (lastFound pid hist) :=
  latest_concat _ _ _ _

/-- Where no lookup found a process, the last one found nothing. -/
theorem lastFound_append_of_none {hist' : List (Obs n)} (h : ∀ o ∈ hist, o.finds pid = none) :
    lastFound pid (hist ++ hist') = lastFound pid hist' := by
  rw [lastFound, latest_append, latest_of_none h]
  rfl

/-- **What the last lookup found, and where.** -/
theorem lastFound_cases (pid : UInt32) (hist : List (Obs n)) :
    (seenOf pid hist = [] ∧ lastFound pid hist = default) ∨
    ∃ before o after new, hist = before ++ o :: after ∧ o.finds pid = some new ∧
      seenOf pid hist = before ++ [o] ∧ lastFound pid hist = new := by
  induction hist using List.reverseRecOn with
  | nil => exact Or.inl ⟨rfl, rfl⟩
  | append_singleton hist o ih =>
    rw [lastFound_concat, seenOf]
    cases ho : o.finds pid with
    | some new =>
      refine Or.inr ⟨hist, o, [], new, rfl, ho, ?_, rfl⟩
      exact List.rdropWhile_concat_neg _ _ _ (by simp [ho])
    | none =>
      rw [List.rdropWhile_concat_pos _ _ _ (by simp [ho])]
      rcases ih with hnone | ⟨before, o', after, new, rfl, ho', hseen, hlast⟩
      · exact Or.inl hnone
      · exact Or.inr ⟨before, o', after ++ [o], new, by simp, ho', hseen, hlast⟩

/-! ### Records -/

/-- The resets since some moment of a run leave the record of a process as it is. -/
def ResetsNothing (pid : UInt32) (hist hist' : List (Obs n)) : Prop :=
  ∀ before after, hist' = before ++ .reset :: after →
    ∀ i, recordOf pid (hist ++ before) = some i → i.cleared = i

theorem ResetsNothing.of_append {hist' more : List (Obs n)}
    (h : ResetsNothing pid hist (hist' ++ more)) : ResetsNothing pid hist hist' := by
  intro before after hsplit
  refine h before (after ++ more) ?_
  rw [hsplit, List.append_assoc, List.cons_append]

theorem resetsNothing_of_notMem {hist' : List (Obs n)} (h : .reset ∉ hist') :
    ResetsNothing pid hist hist' := by
  rintro before after rfl
  simp at h

/-- **The record of a process since its start event** is what the last lookup since then
found, under the name of the event. The induction is on the history since the event. -/
theorem record_since {d : Drained} {hist' : List (Obs n)}
    (hstart : ∀ o ∈ hist', ¬ o.starts d.event.pid)
    (hreset : ResetsNothing d.event.pid (hist ++ [.applied d]) hist') {i : ProcInfo}
    (hi : recordOf d.event.pid (hist ++ .applied d :: hist') = some i) :
    i = d.event.info.sampled (lastFound d.event.pid hist') := by
  induction hist' using List.reverseRecOn generalizing i with
  | nil =>
    rw [recordOf_concat, Obs.track, if_pos rfl] at hi
    exact (Option.some.inj hi).symm
  | append_singleton hist' o ih =>
    have hassoc : hist ++ .applied d :: (hist' ++ [o]) = (hist ++ .applied d :: hist') ++ [o] := by
      simp
    have ih' : ∀ {j}, recordOf d.event.pid (hist ++ .applied d :: hist') = some j →
        j = d.event.info.sampled (lastFound d.event.pid hist') := fun hj =>
      ih (fun o' ho' => hstart o' (List.mem_append_left _ ho')) hreset.of_append hj
    rw [hassoc, recordOf_concat] at hi
    rw [lastFound_concat]
    obtain ⟨j, hj, ⟨new, hfinds, rfl⟩ | ⟨hfinds, rfl⟩ | ⟨rfl, rfl⟩⟩ :=
      Obs.track_eq_some (hstart o (by simp)) hi
    · rw [ih' hj, hfinds, Option.getD_some]
      rfl
    · rw [hfinds, Option.getD_none]
      exact ih' hj
    · rw [hreset hist' [] rfl j (by rwa [List.append_assoc])]
      exact ih' hj

/-- A process is tracked since its last start event. -/
theorem exists_start_of_record {i : ProcInfo} (hi : recordOf pid hist = some i) :
    ∃ before d after, hist = before ++ .applied d :: after ∧ d.event.pid = pid ∧
      ∀ o ∈ after, ¬ o.starts pid := by
  induction hist using List.reverseRecOn generalizing i with
  | nil => cases hi
  | append_singleton hist o ih =>
    by_cases ho : o.starts pid
    · cases o with
      | applied d => exact ⟨hist, d, [], rfl, ho, by simp⟩
      | wrote w => cases ho
      | found j entry new => cases ho
      | lost j => cases ho
      | reset => cases ho
    · rw [recordOf_concat] at hi
      obtain ⟨j, hj, -⟩ := Obs.track_eq_some ho hi
      obtain ⟨before, d, after, rfl, hd, hafter⟩ := ih hj
      refine ⟨before, d, after ++ [o], by simp, hd, fun o' ho' => ?_⟩
      rcases List.mem_append.mp ho' with ho' | ho'
      · exact hafter o' ho'
      · rw [List.mem_singleton.mp ho']
        exact ho

/-- **A process that is not tracked any more has been lost.** The induction is on the history
in between. -/
theorem exists_lost (hist' : List (Obs n)) {i : ProcInfo} (hi : recordOf pid hist = some i)
    (hnone : recordOf pid (hist ++ hist') = none) :
    ∃ before j after, hist' = before ++ .lost j :: after ∧ j.pid = pid := by
  induction hist' generalizing hist i with
  | nil =>
    rw [List.append_nil, hi] at hnone
    cases hnone
  | cons o hist' ih =>
    have hassoc : hist ++ o :: hist' = (hist ++ [o]) ++ hist' := by simp
    rw [hassoc] at hnone
    have hrest : ∀ {j}, recordOf pid (hist ++ [o]) = some j →
        ∃ before j after, o :: hist' = before ++ .lost j :: after ∧ j.pid = pid := by
      intro j hj
      obtain ⟨before, k, after, rfl, hk⟩ := ih hj hnone
      exact ⟨o :: before, k, after, rfl, hk⟩
    have hrecord : recordOf pid (hist ++ [o]) = o.track pid (some i) := by
      rw [recordOf_concat, hi]
    cases o with
    | lost j =>
      by_cases hj : j.pid = pid
      · exact ⟨[], j, hist', rfl, hj⟩
      · exact hrest (hrecord.trans (if_neg hj))
    | wrote w => exact hrest hrecord
    | applied d =>
      rw [Obs.track] at hrecord
      split_ifs at hrecord <;> exact hrest hrecord
    | found j id new =>
      rw [Obs.track] at hrecord
      split_ifs at hrecord <;> exact hrest hrecord
    | reset => exact hrest hrecord

/-! ### Lookups -/

namespace System

variable {e : Endian} {s : System n} {ls : List (SystemStep n)}

/-- **What a lookup finds**: the process is tracked, and the entry is the one it has. Its row
is the difference to its record. -/
theorem found_step (pid : UInt32) {s s' : System n} {l : SystemStep n} {o : Obs n}
    {new : ProcStats} (hstep : s.step e l = some s') (hobs : s.obs l = some o)
    (ho : o.finds pid = some new) :
    ∃ i entry, o = .found i entry.id new ∧ i.pid = pid ∧ i ∈ s.sweep.procs ∧
      s.kernel.stats.lookup pid = some entry ∧
      new = mergeProcStats (List.ofFn entry.values) ∧
      s'.sweep.out = s.sweep.out ++ [i.row new] := by
  rcases obs_cases hobs with ⟨_, w, -, -, rfl⟩ | ⟨d, -, -, rfl⟩ | ⟨i, entry, rfl, hlookup, rfl⟩ |
    ⟨i, -, -, rfl⟩ | ⟨-, rfl⟩
  · cases ho
  · cases ho
  · obtain ⟨rfl, rfl⟩ : i.pid = pid ∧ mergeProcStats (List.ofFn entry.values) = new := by
      simpa [Obs.finds] using ho
    obtain ⟨done, j, todo, hprocs, hidx, rfl⟩ := visit_cases hstep
    rcases obs_visit hprocs hidx with ⟨entry', -, hfound, hvisit⟩ | ⟨-, hlost, -⟩
    · obtain ⟨rfl, -, hnew⟩ := Obs.found.inj (Option.some.inj (hfound.symm.trans hobs))
      refine ⟨j, entry, rfl, rfl, by simp [hprocs], hlookup, rfl, ?_⟩
      rw [hvisit, hnew]
    · exact absurd (hlost.symm.trans hobs) nofun
  · cases ho
  · cases ho

/-- **What a lookup of a run finds**: the counters are those of the ledger. -/
theorem found_spec {o : Obs n} {after : List (Obs n)} {new : ProcStats}
    (h : exec (step e) boot ls = some s) (hhist : history e ls = hist ++ o :: after)
    (ho : o.finds pid = some new) :
    ∃ ls₁ ls₂ u, ls = ls₁ ++ ls₂ ∧ exec (step e) boot ls₁ = some u ∧
      ∃ i id, o = .found i id new ∧ recordOf pid hist = some i ∧
        u.kernel.entryId pid = some id ∧
        ∀ p d, (new.counter p d).toNat = counted (writesOf hist) id p d := by
  obtain ⟨ls₁, l, ls₂, u, u', rfl, hu, hstep, -, rfl, hobs, -⟩ := exists_step_of_observe h hhist
  have hfollows := follows_exec hu
  obtain ⟨i, entry, rfl, rfl, hi, hlookup, rfl, -⟩ := found_step pid hstep hobs ho
  refine ⟨ls₁, l :: ls₂, u, rfl, hu, i, entry.id, rfl, hfollows.record_of_mem hi, ?_, ?_⟩
  · exact Kernel.entryId_eq_some.mpr ⟨entry, hlookup, rfl⟩
  · exact hfollows.ledger.counter_merged hlookup

/-- Only a client resets. -/
theorem reset_mem_of_history (h : exec (step e) boot ls = some s)
    (hreset : .reset ∈ history e ls) : .reset ∈ ls := by
  obtain ⟨before, after, hhist⟩ := List.append_of_mem hreset
  obtain ⟨ls₁, l, ls₂, u, u', rfl, -, -, -, -, hobs, -⟩ := exists_step_of_observe h hhist
  rcases obs_cases hobs with ⟨_, w, -, -, ho⟩ | ⟨d, -, -, ho⟩ | ⟨i, entry, -, -, ho⟩ |
    ⟨i, -, -, ho⟩ | ⟨rfl, -⟩
  · cases ho
  · cases ho
  · cases ho
  · cases ho
  · simp

/-- **What a lookup that finds nothing does**: the process is tracked, has no entry, and its
record goes to the dead list. -/
theorem lost_spec {s s' : System n} {l : SystemStep n} {i : ProcInfo}
    (hstep : s.step e l = some s') (hobs : s.obs l = some (.lost i)) :
    i ∈ s.sweep.procs ∧ s.kernel.entryId i.pid = none ∧
      s'.sweep.deadProcs = pushRecent DEAD_PROC_LIMIT s.sweep.deadProcs i := by
  rcases obs_cases hobs with ⟨_, w, -, -, ho⟩ | ⟨d, -, -, ho⟩ | ⟨j, entry, -, -, ho⟩ |
    ⟨j, rfl, hlookup, ho⟩ | ⟨-, ho⟩
  · cases ho
  · cases ho
  · cases ho
  · obtain rfl := Obs.lost.inj ho
    obtain ⟨done, j, todo, hprocs, hidx, rfl⟩ := visit_cases hstep
    rcases obs_visit hprocs hidx with ⟨entry, -, hfound, -⟩ | ⟨-, hlost, hvisit⟩
    · exact absurd (hfound.symm.trans hobs) nofun
    · obtain rfl := Obs.lost.inj (Option.some.inj (hlost.symm.trans hobs))
      refine ⟨by simp [hprocs], Kernel.entryId_eq_none.mpr hlookup, ?_⟩
      rw [hvisit]
  · cases ho

end System

end Procnet
