import Procnet.Core.Accounting
import Procnet.System.Reuse

/-!
# What the rows of a process add up to

The collector's side of this is `Procnet.Core.Accounting`: there, that the counters of the kernel do
not decrease from tick to tick is an assumption. Here nothing is assumed of them. The lookups of a
process since its start event are the readings of a meter (`Procnet.Lib.Meter`), in whatever order
other processes are looked up, threads send, exit or start, and clients reset; and as long as the
entry that was announced is there, they have all read this entry, to which calls can only add
(`rising_beatsOf`). So what was reported of the process is what has been added to its entry up to
the last lookup, and once more what each reset made the daemon forget (`rows_add_up`).
-/

namespace Procnet

open Lib

variable {n : ℕ} {e : Endian}

namespace Obs

/-- What an observation is to the meter of a process: its counter is read, or a client resets. -/
def beat? (pid : UInt32) (p : Protocol) (dir : Dir) : Obs n → Option Meter.Beat
  | found i _ new => if i.pid = pid then some (.sample (new.counter p dir).toNat) else none
  | reset => some .reset
  | wrote _ | applied _ | lost _ => none

/-- What the row of a process reports for the tick. -/
def delta? (pid : UInt32) (p : Protocol) (dir : Dir) : Obs n → Option ℕ
  | found i _ new => if i.pid = pid then some ((i.row new).delta p dir).toNat else none
  | reset | wrote _ | applied _ | lost _ => none

end Obs

/-- The meter of a process in a history. -/
def beatsOf (pid : UInt32) (p : Protocol) (dir : Dir) (hist : List (Obs n)) : List Meter.Beat :=
  hist.filterMap (Obs.beat? pid p dir)

/-- What the rows of a process report in a history, tick by tick. -/
def deltasOf (pid : UInt32) (p : Protocol) (dir : Dir) (hist : List (Obs n)) : List ℕ :=
  hist.filterMap (Obs.delta? pid p dir)

variable {pid : UInt32} {p : Protocol} {dir : Dir}

theorem beatsOf_concat (hist : List (Obs n)) (o : Obs n) :
    beatsOf pid p dir (hist ++ [o]) = beatsOf pid p dir hist ++ (o.beat? pid p dir).toList := by
  rw [beatsOf, List.filterMap_append]
  cases h : o.beat? pid p dir <;> simp [beatsOf, h]

theorem deltasOf_concat (hist : List (Obs n)) (o : Obs n) :
    deltasOf pid p dir (hist ++ [o]) = deltasOf pid p dir hist ++ (o.delta? pid p dir).toList := by
  rw [deltasOf, List.filterMap_append]
  cases h : o.delta? pid p dir <;> simp [deltasOf, h]

/-- A reading is what a lookup has found. -/
theorem Obs.finds_of_beat? {o : Obs n} {v : ℕ} (h : o.beat? pid p dir = some (.sample v)) :
    ∃ new, o.finds pid = some new ∧ v = (new.counter p dir).toNat := by
  cases o with
  | found i id new =>
    rw [beat?] at h
    rw [finds]
    split_ifs at h ⊢ with hi
    obtain rfl := Meter.Beat.sample.inj (Option.some.inj h)
    exact ⟨new, rfl, rfl⟩
  | wrote w => cases h
  | applied d => cases h
  | lost i => cases h
  | reset => cases h

/-- Only a reset sets the meter back. -/
theorem Obs.eq_reset_of_beat? {o : Obs n} (h : o.beat? pid p dir = some .reset) : o = .reset := by
  cases o with
  | reset => rfl
  | found i id new =>
    rw [beat?] at h
    split_ifs at h
    cases h
  | wrote | applied | lost => cases h

/-- What a row reports for the tick is the difference to the record. -/
theorem toNat_delta_row (i : ProcInfo) (new : ProcStats) (p : Protocol) (dir : Dir) :
    ((i.row new).delta p dir).toNat = (new.counter p dir).toNat - i.counter p dir := by
  cases p <;> cases dir <;>
    simp [StatsRow.delta, ProcInfo.row, ProcInfo.counter, ProcInfo.cum, StatsBytes.dir,
      StatsBytes.saturatingSub, ProcStats.counter, ProcStats.proto]

namespace System

variable {s : System n} {ls : List (SystemStep n)} {before after : List (Obs n)} {d : Drained}

/-- **Since its start event a process is a meter**: its record has what the meter shows, and its
rows report what the meter reports. The induction is on the history since the event. -/
theorem meter_since (h : exec (step e) boot ls = some s) {rest : List (Obs n)}
    (hhist : history e ls = before ++ .applied d :: (after ++ rest))
    (hstart : ∀ o ∈ after, ¬ o.starts d.event.pid) (p : Protocol) (dir : Dir) :
    (∀ i, recordOf d.event.pid (before ++ .applied d :: after) = some i →
      i.counter p dir = Meter.reading 0 (beatsOf d.event.pid p dir after)) ∧
    deltasOf d.event.pid p dir after = Meter.deltas 0 (beatsOf d.event.pid p dir after) := by
  induction after using List.reverseRecOn generalizing rest with
  | nil =>
    refine ⟨fun i hi => ?_, rfl⟩
    rw [recordOf_concat, Obs.track, if_pos rfl] at hi
    obtain rfl := Option.some.inj hi
    cases p <;> cases dir <;> rfl
  | append_singleton after o ih =>
    have hassoc : before ++ .applied d :: (after ++ [o]) =
        (before ++ .applied d :: after) ++ [o] := by
      simp
    have hbefore : history e ls = before ++ .applied d :: (after ++ o :: rest) := by
      simpa using hhist
    obtain ⟨hrecord, hdeltas⟩ := ih hbefore fun o' ho' => hstart o' (List.mem_append_left _ ho')
    have hkept : o.beat? d.event.pid p dir = none → o.delta? d.event.pid p dir = none →
        (∀ i, o.track d.event.pid (recordOf d.event.pid (before ++ .applied d :: after)) = some i →
          recordOf d.event.pid (before ++ .applied d :: after) = some i) →
        (∀ i, recordOf d.event.pid (before ++ .applied d :: (after ++ [o])) = some i →
          i.counter p dir = Meter.reading 0 (beatsOf d.event.pid p dir (after ++ [o]))) ∧
        deltasOf d.event.pid p dir (after ++ [o]) =
          Meter.deltas 0 (beatsOf d.event.pid p dir (after ++ [o])) := by
      intro hbeat hdelta htrack
      rw [hassoc, beatsOf_concat, deltasOf_concat, hbeat, hdelta, Option.toList_none,
        Option.toList_none, List.append_nil, List.append_nil]
      refine ⟨fun i hi => hrecord i (htrack i ?_), hdeltas⟩
      rwa [recordOf_concat] at hi
    cases o with
    | wrote w => exact hkept rfl rfl fun i hi => hi
    | applied d' =>
      have hne : d'.event.pid ≠ d.event.pid := hstart (.applied d') (by simp)
      exact hkept rfl rfl fun i hi => by rwa [Obs.track, if_neg hne] at hi
    | lost j =>
      refine hkept rfl rfl fun i hi => ?_
      rw [Obs.track] at hi
      split_ifs at hi
      exact hi
    | found j id new =>
      by_cases hj : j.pid = d.event.pid
      · -- The meter is read: the row is the difference to the record that there was.
        have hsplit : history e ls =
            (before ++ .applied d :: after) ++ .found j id new :: rest := by simpa using hhist
        obtain ⟨-, -, -, -, -, j', id', hfound, hj', -⟩ := found_spec h hsplit (if_pos hj)
        obtain ⟨rfl, -, -⟩ := Obs.found.inj hfound
        rw [hassoc, beatsOf_concat, deltasOf_concat, Obs.beat?, Obs.delta?, if_pos hj, if_pos hj,
          Meter.reading_append, Meter.deltas_append, hdeltas, ← hrecord j hj']
        refine ⟨fun i hi => ?_, ?_⟩
        · rw [recordOf_concat, hj', Obs.track, if_pos hj] at hi
          obtain rfl := Option.some.inj hi
          cases p <;> cases dir <;> rfl
        · rw [toNat_delta_row]
          rfl
      · refine hkept (if_neg hj) (if_neg hj) fun i hi => ?_
        rwa [Obs.track, if_neg hj] at hi
    | reset =>
      rw [hassoc, beatsOf_concat, deltasOf_concat, Meter.reading_append, Meter.deltas_append,
        hdeltas]
      refine ⟨fun i hi => ?_, rfl⟩
      rw [recordOf_concat] at hi
      obtain ⟨j, -, rfl⟩ := Option.map_eq_some_iff.mp hi
      cases p <;> cases dir <;> rfl

/-- **As long as the announced entry is there, it is the one that lookups find.** -/
theorem found_announced (h : exec (step e) boot ls = some s) {i : ProcInfo} {id : ℕ}
    {new : ProcStats} {rest : List (Obs n)}
    (hhist : history e ls = before ++ .applied d :: (after ++ .found i id new :: rest))
    (hi : i.pid = d.event.pid) (hentry : s.kernel.entryId d.event.pid = some d.entry) :
    id = d.entry := by
  obtain ⟨ls₁, l₁, ls₂, v, v', rfl, hv, hstep₁, hls₂, -, hobs₁, hrest⟩ :=
    exists_step_of_observe h hhist
  have hwritten : Written (history e ls₁) d.event.pid d.entry := by
    rcases obs_cases hobs₁ with ⟨_, w, -, -, ho⟩ | ⟨d', -, hqueue, ho⟩ | ⟨_, _, -, -, ho⟩ |
      ⟨_, -, -, ho⟩ | ⟨-, ho⟩
    · cases ho
    · obtain rfl := Obs.applied.inj ho
      exact (announced_exec hv).queue d (List.mem_of_head? hqueue)
    · cases ho
    · cases ho
    · cases ho
  obtain ⟨ls₃, ls₄, w, rfl, hw, hwv, hwid⟩ := entry_of_written hv hwritten
  obtain ⟨ls₅, l₅, ls₆, x, x', rfl, hx, hstep₅, hls₆, -, hobs₅, -⟩ :=
    exists_step_of_observe hls₂ hrest
  obtain ⟨i', entry, hfound, -, -, hlookup, -⟩ := found_step d.event.pid hstep₅ hobs₅ (if_pos hi)
  obtain ⟨-, rfl, -⟩ := Obs.found.inj hfound
  have hid : x.kernel.entryId d.event.pid = some entry.id :=
    Kernel.entryId_eq_some.mpr ⟨_, hlookup, rfl⟩
  -- It is not older than the announced one, nor newer than the one there is in the end.
  have hvx : exec (step e) v (l₁ :: ls₅) = some x := exec_cons_eq_some.mpr ⟨v', hstep₁, hx⟩
  have hwx : exec (step e) w (ls₄ ++ l₁ :: ls₅) = some x := exec_append_eq_some.mpr ⟨v, hwv, hvx⟩
  have hbx : exec (step e) boot ((ls₃ ++ ls₄) ++ l₁ :: ls₅) = some x :=
    exec_append_eq_some.mpr ⟨v, hv, hvx⟩
  have hxs : exec (step e) x (l₅ :: ls₆) = some s := exec_cons_eq_some.mpr ⟨x', hstep₅, hls₆⟩
  exact Nat.le_antisymm (entryId_le hbx hxs hid hentry) (entryId_le hw hwx hwid hid)

/-- What has been added to an entry in a part of a history. -/
theorem added_writesOf_le (hist hist' : List (Obs n)) (id : ℕ) (p : Protocol) (dir : Dir) :
    added (writesOf hist) id p dir ≤ added (writesOf (hist ++ hist')) id p dir := by
  rw [writesOf_append, added_append]
  exact Nat.le_add_right _ _

/-- **The readings of the meter do not decrease**, since calls only add to the entry; and no reading
shows more than what has been added so far. -/
theorem rising_beatsOf (h : exec (step e) boot ls = some s) {rest : List (Obs n)}
    (hhist : history e ls = before ++ .applied d :: (after ++ rest))
    (hentry : s.kernel.entryId d.event.pid = some d.entry)
    (hfits : added (writesOf (history e ls)) d.entry p dir < 2 ^ 64) :
    Meter.Rising (beatsOf d.event.pid p dir after) ∧
      ∀ v ∈ Meter.samples (beatsOf d.event.pid p dir after),
        v ≤ added (writesOf (before ++ .applied d :: after)) d.entry p dir := by
  induction after using List.reverseRecOn generalizing rest with
  | nil => exact ⟨List.Pairwise.nil, by simp [beatsOf, Meter.samples]⟩
  | append_singleton after o ih =>
    have hbefore : history e ls = before ++ .applied d :: (after ++ o :: rest) := by
      simpa using hhist
    obtain ⟨hrising, hle⟩ := ih hbefore
    have hmore : added (writesOf (before ++ .applied d :: after)) d.entry p dir ≤
        added (writesOf (before ++ .applied d :: (after ++ [o]))) d.entry p dir := by
      have hle := added_writesOf_le (before ++ .applied d :: after) [o] d.entry p dir
      rwa [List.append_assoc, List.cons_append] at hle
    rw [beatsOf_concat, Meter.Rising, Meter.samples_append]
    cases hbeat : o.beat? d.event.pid p dir with
    | none =>
      rw [Option.toList_none, Meter.samples, List.append_nil]
      exact ⟨hrising, fun v hv => (hle v hv).trans hmore⟩
    | some beat =>
      cases beat with
      | reset =>
        rw [Option.toList_some, Meter.samples, Meter.samples, List.append_nil]
        exact ⟨hrising, fun v hv => (hle v hv).trans hmore⟩
      | sample v =>
        obtain ⟨new, hfinds, rfl⟩ := Obs.finds_of_beat? hbeat
        have hsplit : history e ls = (before ++ .applied d :: after) ++ o :: rest := by
          simpa using hhist
        obtain ⟨-, -, -, -, -, i, id, rfl, hi, -, hcounted⟩ := found_spec h hsplit hfinds
        have hpid : i.pid = d.event.pid := (Option.ite_none_right_eq_some.mp hfinds).1
        obtain rfl := found_announced h (by simpa using hhist) hpid hentry
        have hnew : (new.counter p dir).toNat =
            added (writesOf (before ++ .applied d :: after)) d.entry p dir := by
          rw [hcounted, counted_eq_added]
          refine lt_of_le_of_lt ?_ hfits
          rw [hsplit]
          exact added_writesOf_le _ _ d.entry p dir
        rw [Option.toList_some, Meter.samples, Meter.samples]
        refine ⟨List.pairwise_append.mpr ⟨hrising, List.pairwise_singleton _ _, ?_⟩, ?_⟩
        · intro v hv v' hv'
          rw [List.mem_singleton.mp hv', hnew]
          exact hle v hv
        · intro v hv
          rcases List.mem_append.mp hv with hv | hv
          · exact (hle v hv).trans hmore
          · rw [List.mem_singleton.mp hv, hnew]
            exact hmore

/-- After the last lookup of a process its meter is not read any more. -/
theorem reading_of_last {pre post : List (Obs n)} {o : Obs n} {new : ProcStats}
    (ho : o.finds pid = some new) (hlast : ∀ o' ∈ post, o'.finds pid = none)
    (hreset : .reset ∉ post) (p : Protocol) (dir : Dir) :
    Meter.reading 0 (beatsOf pid p dir (pre ++ o :: post)) = (new.counter p dir).toNat := by
  have hnone : beatsOf pid p dir post = [] := by
    refine List.filterMap_eq_nil_iff.mpr fun o' ho' => ?_
    cases hbeat : o'.beat? pid p dir with
    | none => rfl
    | some beat =>
      cases beat with
      | sample v =>
        obtain ⟨new', hfinds, -⟩ := Obs.finds_of_beat? hbeat
        rw [hlast o' ho'] at hfinds
        cases hfinds
      | reset => exact absurd (Obs.eq_reset_of_beat? hbeat ▸ ho') hreset
  have hsample : o.beat? pid p dir = some (.sample (new.counter p dir).toNat) := by
    cases o with
    | found i id new' =>
      obtain ⟨hi, hnew⟩ := Option.ite_none_right_eq_some.mp ho
      obtain rfl := Option.some.inj hnew
      exact if_pos hi
    | wrote | applied | lost | reset => cases ho
  rw [List.append_cons, beatsOf, List.filterMap_append, ← beatsOf, ← beatsOf, hnone,
    List.append_nil, beatsOf_concat, hsample, Meter.reading_append]
  rfl

/-- **The rows of a process add up**, over every run in which its announced entry is still there.
What its rows have reported since its start event is what its record shows, and what the record
showed at each reset. Without resets, it is what calls have added to the entry up to the last lookup
of the process, so that nothing is reported twice and nothing is missing but what came after it. -/
theorem rows_add_up (e : Endian) {ls : List (SystemStep n)} {s : System n}
    {before after : List (Obs n)} {d : Drained} (h : exec (step e) boot ls = some s)
    (hhist : history e ls = before ++ .applied d :: after)
    (hstart : ∀ o ∈ after, ¬ o.starts d.event.pid)
    (hentry : s.kernel.entryId d.event.pid = some d.entry) (p : Protocol) (dir : Dir)
    (hfits : added (writesOf (history e ls)) d.entry p dir < 2 ^ 64) :
    (∀ i ∈ s.sweep.procs, i.pid = d.event.pid →
      (deltasOf d.event.pid p dir after).sum =
        i.counter p dir + Meter.cleared 0 (beatsOf d.event.pid p dir after)) ∧
    (.reset ∉ after → (∃ o ∈ after, o.finds d.event.pid ≠ none) →
      added (writesOf (history e ls)) d.entry p dir =
        (deltasOf d.event.pid p dir after).sum +
          added (writesOf (unseenOf d.event.pid after)) d.entry p dir) := by
  have hhist' : history e ls = before ++ .applied d :: (after ++ []) := by
    rw [List.append_nil]
    exact hhist
  obtain ⟨hrecord, hdeltas⟩ := meter_since h hhist' hstart p dir
  obtain ⟨hrising, -⟩ := rising_beatsOf h hhist' hentry hfits
  have hbooks := Meter.sum_deltas 0 hrising fun v _ => Nat.zero_le v
  rw [← hdeltas, Nat.add_zero] at hbooks
  constructor
  · intro i hi hpid
    have hi := ((follows_exec h).record d.event.pid i).mp ⟨hi, hpid⟩
    rw [hhist] at hi
    rw [hbooks, hrecord i hi]
  · rintro hreset ⟨o₀, ho₀, hfound₀⟩
    have hcleared : Meter.cleared 0 (beatsOf d.event.pid p dir after) = 0 := by
      refine Meter.cleared_eq_zero_of_no_reset 0 fun hmem => ?_
      obtain ⟨o, ho, hbeat⟩ := List.mem_filterMap.mp hmem
      exact hreset (Obs.eq_reset_of_beat? hbeat ▸ ho)
    rcases lastFound_cases d.event.pid after with ⟨hnever, -⟩ |
      ⟨pre, o, post, new, rfl, hfinds, hseen, -⟩
    · -- Some lookup has found the process.
      have hall := List.rdropWhile_eq_nil_iff.mp hnever o₀ ho₀
      exact absurd (Option.isNone_iff_eq_none.mp hall) hfound₀
    · have hunseen : unseenOf d.event.pid (pre ++ o :: post) = post := by
        have hsplit := seenOf_append_unseenOf d.event.pid (pre ++ o :: post)
        rw [hseen, List.append_assoc, List.singleton_append] at hsplit
        exact (List.cons.inj (List.append_cancel_left hsplit)).2
      have hlast : ∀ o' ∈ post, o'.finds d.event.pid = none := by
        intro o' ho'
        rw [← hunseen] at ho'
        exact Option.isNone_iff_eq_none.mp
          (List.mem_rtakeWhile_imp (p := fun o : Obs n => (o.finds d.event.pid).isNone) ho')
      have hsplit : history e ls = (before ++ .applied d :: pre) ++ o :: post := by
        simpa using hhist
      obtain ⟨-, -, -, -, -, i, id, rfl, -, -, hcounted⟩ := found_spec h hsplit hfinds
      have hpid : i.pid = d.event.pid := (Option.ite_none_right_eq_some.mp hfinds).1
      obtain rfl := found_announced h hhist hpid hentry
      have hadded : added (writesOf (history e ls)) d.entry p dir =
          added (writesOf (before ++ .applied d :: pre)) d.entry p dir +
            added (writesOf post) d.entry p dir := by
        rw [hsplit, writesOf_append, added_append]
        rfl
      rw [hunseen, hadded, hbooks, hcleared, Nat.add_zero,
        reading_of_last hfinds hlast (fun hmem => hreset (by simp [hmem])) p dir, hcounted,
        counted_eq_added (by omega)]

/-- A process is sampled twice, at 100 and at 150 bytes, and sends 5 more; other bytes of it are
under way at every lookup. -/
def twiceSampled : List (SystemStep 1) :=
  .kernel (.spawn (leader 7)) :: ((firstCall soleCpu (leader 7) 100).map .kernel ++
    [.tick, .drain "curl", .drained, .apply, .kernel (.enter soleCpu (leader 7) default 50 0 .tcp),
      .collect, .visit, .kernel (.run soleCpu), .kernel (.run soleCpu), .finish,
      .kernel (.enter soleCpu (leader 7) default 5 0 .tcp), .tick, .drained, .collect,
      .kernel (.run soleCpu), .visit, .kernel (.run soleCpu), .finish])

/-- Of the 155 bytes, the rows have reported 100 and 50. -/
theorem rows_add_up_twice :
    ∃ s before d after, exec (step .little) boot twiceSampled = some s ∧
      history .little twiceSampled = before ++ .applied d :: after ∧ d.event.pid = 7 ∧
      deltasOf 7 .tcp .sent after = [100, 50] ∧
      added (writesOf (history .little twiceSampled)) d.entry .tcp .sent = 150 +
        added (writesOf (unseenOf 7 after)) d.entry .tcp .sent := by
  obtain ⟨s, hs, hp⟩ := exists_exec_of_any (step .little) boot twiceSampled
    (fun s => s.kernel.entryId 7 = some 0) (by decide +kernel)
  have hhist : history .little twiceSampled =
      (history .little twiceSampled).take 1 ++ .applied ⟨⟨7, "curl"⟩, 0⟩ ::
        (history .little twiceSampled).drop 2 := by decide +kernel
  have hsum := (rows_add_up .little hs hhist (by decide +kernel) (of_decide_eq_true hp) .tcp .sent
    (by decide +kernel)).2 (by decide +kernel) (by decide +kernel)
  have hdeltas : deltasOf 7 .tcp .sent ((history .little twiceSampled).drop 2) = [100, 50] := by
    decide +kernel
  have hpid : (⟨⟨7, "curl"⟩, 0⟩ : Drained).event.pid = 7 := rfl
  rw [hpid, hdeltas] at hsum
  exact ⟨s, _, _, _, hs, hhist, hpid, hdeltas, hsum⟩

end System

end Procnet
