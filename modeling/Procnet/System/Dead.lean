import Procnet.System.Entries
import Procnet.System.Samples

/-!
# What the dead list says of a process

The entry of a process is deleted when it exits, and the record that goes to the dead list
later is the one that the daemon had last sampled. `dead_counters` says what that is: of
all the bytes that were added to the entry of the process, the record counts those that had
been added when a lookup last found it, and none if no lookup ever did. What the process
sent and received after that is not reported, so that the record is complete exactly if
there was nothing.
-/

namespace Procnet

open Lib

variable {n : ℕ} {e : Endian}

namespace System

variable {s s' : System n} {ls : List (SystemStep n)} {i : ProcInfo}

/-- The start event of a process that is lost: it is the only one, and announces the entry of
the process. -/
theorem start_of_lost (h : exec (step e) boot ls = some s) (hi : i ∈ s.sweep.procs)
    (hnone : s.kernel.entryId i.pid = none)
    (hreuse : ls.count (.kernel (.spawn (leader i.pid))) ≤ 1) :
    ∃ before d after, history e ls = before ++ .applied d :: after ∧
      d.event.pid = i.pid ∧ (∀ o ∈ after, ¬ o.starts i.pid) ∧
      (∀ o ∈ before, ¬ o.starts i.pid) ∧
      Written (history e ls) i.pid d.entry ∧
      ∀ id, Written (history e ls) i.pid id → id = d.entry := by
  have hrecord := (follows_exec h).record_of_mem hi
  have hann := announced_exec h
  obtain ⟨before, d, after, hhist, hd, hafter⟩ := exists_start_of_record hrecord
  have hwritten : Written (history e ls) i.pid d.entry := by
    rw [← hd]
    exact hann.applied d (by rw [hhist]; simp)
  have hone : ∀ id, Written (history e ls) i.pid id → id = d.entry := by
    intro id hw
    obtain ⟨ls₁, ls₁', u, hls, hu, -, hid⟩ := entry_of_written h hw
    obtain ⟨ls₂, ls₂', v, hls', hv, -, hid'⟩ := entry_of_written h hwritten
    exact entry_unique h hreuse hnone hls hls' hu hv hid hid'
  refine ⟨before, d, after, hhist, hd, hafter, fun o ho hstarts => ?_, hwritten, hone⟩
  cases o with
  | applied d' =>
    have hpid : d'.event.pid = i.pid := hstarts
    have hmem : Obs.applied d' ∈ history e ls := by
      rw [hhist]
      exact List.mem_append_left _ ho
    have hentry : d'.entry = d.entry := hone d'.entry (hpid ▸ hann.applied d' hmem)
    -- the entry would be announced twice
    have hnodup : ((before ++ .applied d :: after).filterMap Obs.applied?).Nodup := by
      rw [← hhist]
      exact (hann.nodup.of_append_left).of_append_left
    rw [List.filterMap_append, List.nodup_append] at hnodup
    refine hnodup.2.2 d'.entry (List.mem_filterMap.mpr ⟨_, ho, rfl⟩) d.entry ?_ hentry
    exact List.mem_filterMap.mpr ⟨.applied d, List.mem_cons_self .., rfl⟩
  | wrote w => cases hstarts
  | found j id new => cases hstarts
  | lost j => cases hstarts
  | reset => cases hstarts

/-- What a process has, by its record, is what had been counted when it was last seen. -/
theorem cum_of_lost (h : exec (step e) boot ls = some s) (hi : i ∈ s.sweep.procs)
    (hnone : s.kernel.entryId i.pid = none) (hreset : .reset ∉ ls)
    (hreuse : ls.count (.kernel (.spawn (leader i.pid))) ≤ 1) :
    ∃ id, Written (history e ls) i.pid id ∧ (∀ id', Written (history e ls) i.pid id' → id' = id) ∧
      ∀ p d, ((i.cum p).dir d).toNat = counted (writesOf (seenOf i.pid (history e ls))) id p d := by
  obtain ⟨before, d, after, hhist, hd, hafter, hbefore, hwritten, hone⟩ :=
    start_of_lost h hi hnone hreuse
  refine ⟨d.entry, hwritten, hone, ?_⟩
  have hrecord := (follows_exec h).record_of_mem hi
  -- Without a start event there was no record, and without a record no lookup.
  have hunseen : ∀ o ∈ before, o.finds i.pid = none := by
    intro o ho
    by_contra hfinds
    obtain ⟨new, hnew⟩ := Option.ne_none_iff_exists'.mp hfinds
    obtain ⟨a, b, rfl⟩ := List.append_of_mem ho
    have hsplit : history e ls = a ++ o :: (b ++ .applied d :: after) := by simp [hhist]
    obtain ⟨_, _, _, _, _, j, _, -, hj, -⟩ := found_spec h hsplit hnew
    obtain ⟨a', d', b', rfl, hd', -⟩ := exists_start_of_record hj
    exact hbefore (.applied d') (by simp) hd'
  have hlast : lastFound i.pid (history e ls) = lastFound i.pid after := by
    have hsplit : history e ls = (before ++ [.applied d]) ++ after := by simp [hhist]
    rw [hsplit, lastFound_append_of_none]
    intro o ho
    rcases List.mem_append.mp ho with ho | ho
    · exact hunseen o ho
    · rw [List.mem_singleton.mp ho]
      rfl
  have hi' : i = d.event.info.sampled (lastFound i.pid (history e ls)) := by
    have hnothing : ResetsNothing d.event.pid (before ++ [.applied d]) after := by
      refine resetsNothing_of_notMem fun hmem => hreset (reset_mem_of_history h (e := e) ?_)
      rw [hhist]
      exact List.mem_append_right _ (List.mem_cons_of_mem _ hmem)
    rw [hhist, ← hd] at hrecord
    rw [hlast, ← hd]
    exact record_since (hd ▸ hafter) hnothing hrecord
  intro p dir
  have hcum : (i.cum p).dir dir = (lastFound i.pid (history e ls)).counter p dir := by
    generalize lastFound i.pid (history e ls) = new at hi'
    rw [hi']
    cases p <;> rfl
  rw [hcum]
  rcases lastFound_cases i.pid (history e ls) with ⟨hseen, hdefault⟩ |
    ⟨a, o, b, new, hsplit, hfinds, hseen, hnew⟩
  · rw [hseen, hdefault, writesOf, List.filterMap_nil, counted_nil]
    cases p <;> cases dir <;> rfl
  · obtain ⟨ls₁, ls₂, u, hls, hu, j, id, rfl, -, hid, hcounted⟩ :=
      found_spec h hsplit hfinds
    obtain ⟨ls₃, ls₄, v, hls', hv, -, hid'⟩ := entry_of_written h hwritten
    obtain rfl : id = d.entry := entry_unique h hreuse hnone hls hls' hu hv hid hid'
    rw [hnew, hcounted, hseen, writesOf_concat rfl]

end System

/-- **What the dead list says of a process**: in any run of any number of threads, CPUs and
iterations of the daemon, without a reset and without a reuse of the pid, the record that
goes to the dead list counts what had been added to the entry of the process when a lookup
last found it, and nothing if none did. As long as no counter overflows, this is all that was
added exactly if nothing was added later. -/
theorem dead_counters (e : Endian) (ls : List (SystemStep n)) (s s' : System n)
    (l : SystemStep n) (i : ProcInfo) (h : exec (System.step e) .boot ls = some s)
    (hstep : s.step e l = some s') (hlost : s.obs l = some (.lost i)) (hreset : .reset ∉ ls)
    (hreuse : ls.count (.kernel (.spawn (leader i.pid))) ≤ 1) :
    s'.sweep.deadProcs = pushRecent DEAD_PROC_LIMIT s.sweep.deadProcs i ∧
    ∃ id, System.Written (System.history e ls) i.pid id ∧
      (∀ id', System.Written (System.history e ls) i.pid id' → id' = id) ∧
      ∀ p d,
        ((i.cum p).dir d).toNat = counted (writesOf (seenOf i.pid (System.history e ls))) id p d ∧
        (added (writesOf (System.history e ls)) id p d < 2 ^ 64 →
          (((i.cum p).dir d).toNat = added (writesOf (System.history e ls)) id p d ↔
            added (writesOf (unseenOf i.pid (System.history e ls))) id p d = 0)) := by
  obtain ⟨hi, hnone, hdead⟩ := System.lost_spec hstep hlost
  obtain ⟨id, hwritten, hone, hcum⟩ := System.cum_of_lost h hi hnone hreset hreuse
  refine ⟨hdead, id, hwritten, hone, fun p d => ⟨hcum p d, fun hfits => ?_⟩⟩
  have hsplit : added (writesOf (System.history e ls)) id p d =
      added (writesOf (seenOf i.pid (System.history e ls))) id p d +
        added (writesOf (unseenOf i.pid (System.history e ls))) id p d := by
    rw [← added_append, ← writesOf_append, seenOf_append_unseenOf]
  rw [hcum p d, counted_eq_added (by omega), hsplit]
  omega

/-- A process that sends 100 bytes, is sampled, sends 50 more, and exits. -/
def sampledOnce : List (SystemStep 1) :=
  .kernel (.spawn (leader 7)) :: (firstCall 0 (leader 7) 100).map .kernel ++
    [.tick, .drain "curl", .drained, .apply, .collect, .visit, .finish,
      .kernel (.enter 0 (leader 7) default 50 0 .tcp), .kernel (.run 0), .kernel (.run 0),
      .kernel (.exit (leader 7)), .tick, .drained, .collect]

theorem sampledOnce_lost :
    ∃ s s' i, exec (System.step .little) .boot sampledOnce = some s ∧
      s.step .little .visit = some s' ∧ s.obs .visit = some (.lost i) ∧ i.pid = 7 ∧
      i.tcpCum.sent = 100 := by
  obtain ⟨s, hs, hend⟩ := exists_exec_of_any (System.step .little) .boot sampledOnce
    (fun s => (s.step .little .visit).isSome && (s.obs .visit).any fun o =>
      match o with
      | .lost i => decide (i.pid = 7 ∧ i.tcpCum.sent = 100)
      | .wrote _ | .applied _ | .found .. | .reset => false) (by decide +kernel)
  obtain ⟨hstep, hobs⟩ := Bool.and_eq_true_iff.mp hend
  obtain ⟨s', hs'⟩ := Option.isSome_iff_exists.mp hstep
  obtain ⟨o, ho, hlost⟩ := (Option.any_eq_true _ _).mp hobs
  cases o with
  | lost i =>
    obtain ⟨hpid, hsent⟩ := of_decide_eq_true hlost
    exact ⟨s, s', i, hs, hs', ho, hpid, hsent⟩
  | wrote w => cases hlost
  | applied d => cases hlost
  | found i id new => cases hlost
  | reset => cases hlost

/-- Its record counts what it had sent when it was sampled. -/
theorem dead_counters_sampled_once :
    ∃ id, System.Written (System.history .little sampledOnce) 7 id ∧
      100 = counted (writesOf (seenOf 7 (System.history .little sampledOnce))) id .tcp .sent := by
  obtain ⟨s, s', i, hs, hstep, hlost, hpid, hsent⟩ := sampledOnce_lost
  obtain ⟨-, id, hwritten, -, hcum⟩ := dead_counters .little sampledOnce s s' .visit i hs hstep
    hlost (by decide) (by rw [hpid]; decide)
  rw [hpid] at hwritten hcum
  have hsent' : (i.cum .tcp).dir .sent = 100 := hsent
  have h := (hcum .tcp .sent).1
  rw [hsent'] at h
  exact ⟨id, hwritten, h⟩

/-- A process that sends more between its last sample and its exit is reported with less. -/
theorem dead_counters_incomplete :
    ∃ (ls : List (SystemStep 1)) (s : System 1) (i : ProcInfo) (id : ℕ),
      exec (System.step .little) .boot ls = some s ∧ s.obs .visit = some (.lost i) ∧
      .reset ∉ ls ∧ ls.count (.kernel (.spawn (leader i.pid))) ≤ 1 ∧
      System.Written (System.history .little ls) i.pid id ∧
      i.tcpCum.sent.toNat ≠ added (writesOf (System.history .little ls)) id .tcp .sent := by
  obtain ⟨s, s', i, hs, -, hlost, hpid, hsent⟩ := sampledOnce_lost
  have hadded : added (writesOf (System.history .little sampledOnce)) 0 .tcp .sent = 150 := by
    decide +kernel
  have hwritten : ∃ w ∈ writesOf (System.history .little sampledOnce),
      w.entry = 0 ∧ w.call.thread.tgid = 7 := by
    decide +kernel
  refine ⟨sampledOnce, s, i, 0, hs, hlost, by decide, by rw [hpid]; decide, ?_, ?_⟩
  · rw [hpid]
    exact hwritten
  · rw [hsent, hadded]
    decide

end Procnet
