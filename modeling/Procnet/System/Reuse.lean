import Procnet.System.Entries
import Procnet.System.Samples

/-!
# When a pid is reused

A process exits, which deletes its entry, and a new process with the same pid inserts one.
The daemon learns of it when the start event of the new process is applied. If a lookup has
found nothing in between, the old process has gone to the dead list and the new one starts
from zero; otherwise its event overwrites the old record, which is then on no list, and
with it whatever had been seen of the new process already.

`pid_reuse` says that this is all that can go wrong, besides resets: as long as start events
find their pid untracked (`KeepsApart`), and resets find nothing to clear that has been counted
since the start event (`ResetsNothing`), the rows and the dead list are right, whatever else
happens in between.
-/

namespace Procnet

open Lib

variable {n : ℕ} {e : Endian}

/-- What a lookup finds in a particular entry of a process. -/
def Obs.sights (pid : UInt32) (id : ℕ) : Obs n → Option ProcStats
  | found i id' new => if i.pid = pid ∧ id' = id then some new else none
  | wrote _ | applied _ | lost _ | reset => none

/-- What has been seen of an entry of a process, or zero. -/
def lastSeen (pid : UInt32) (id : ℕ) (hist : List (Obs n)) : ProcStats :=
  latest (Obs.sights pid id) default hist

namespace System

variable {s s' : System n} {pid : UInt32} {ls : List (SystemStep n)}

/-- A step that keeps the processes of a pid apart: a start event finds the pid untracked. -/
def KeepsApart (pid : UInt32) (s : System n) : SystemStep n → Prop
  | .apply => ∀ d ∈ s.queue.head?, d.event.pid = pid → ∀ i ∈ s.sweep.procs, i.pid ≠ pid
  | .kernel _ | .reset | .tick | .drain _ | .drained | .collect | .visit | .finish => True

instance (pid : UInt32) (s : System n) : DecidablePred (s.KeepsApart pid)
  | .apply => inferInstanceAs (Decidable (∀ d ∈ s.queue.head?, _ → ∀ i ∈ s.sweep.procs, _))
  | .kernel _ | .reset | .tick | .drain _ | .drained | .collect | .visit | .finish =>
    inferInstanceAs (Decidable True)

/-- A start event of a run that keeps its pids apart finds the pid untracked. -/
theorem recordOf_of_applied (h : exec (step e) boot ls = some s)
    (hm : Meets (step e) (KeepsApart pid) boot ls) {before after : List (Obs n)} {d : Drained}
    (hhist : history e ls = before ++ .applied d :: after) (hd : d.event.pid = pid) :
    recordOf pid before = none := by
  obtain ⟨ls₁, l, ls₂, u, u', rfl, hu, -, -, rfl, hobs, -⟩ := exists_step_of_observe h hhist
  have hl := ((meets_append.mp hm).2 u hu).1
  rcases obs_cases hobs with ⟨_, w, -, -, ho⟩ | ⟨d', rfl, hqueue, ho⟩ | ⟨i, entry, -, -, ho⟩ |
    ⟨i, -, -, ho⟩ | ⟨-, ho⟩
  · cases ho
  · obtain rfl := Obs.applied.inj ho
    refine Option.eq_none_iff_forall_ne_some.mpr fun i hi => ?_
    obtain ⟨hmem, hpid⟩ := ((follows_exec hu).record pid i).mpr hi
    exact hl d hqueue hd i hmem hpid
  · cases ho
  · cases ho
  · cases ho

/-- **Since the start event of an entry, lookups have found that entry only**, as long as it
is the one they find now: entries come in order, so that an entry found in between is neither
older than the one announced nor newer than the one found now. -/
theorem finds_eq_sights {u u' : System n} {l : SystemStep n} {i : ProcInfo} {id : ℕ}
    {new : ProcStats} (h : exec (step e) boot ls = some u) (hstep : u.step e l = some u')
    (hfound : u.obs l = some (.found i id new)) {before after : List (Obs n)} {d : Drained}
    (hhist : history e ls = before ++ .applied d :: after) (hd : d.event.pid = i.pid)
    (hentry : d.entry = id) : ∀ o ∈ after, o.finds i.pid = o.sights i.pid id := by
  intro o ho
  obtain ⟨i', entry, hi', -, -, hlookup, -⟩ := found_step i.pid hstep hfound (if_pos rfl)
  obtain ⟨rfl, rfl, -⟩ := Obs.found.inj hi'
  have hid : u.kernel.entryId i.pid = some entry.id := Kernel.entryId_eq_some.mpr ⟨_, hlookup, rfl⟩
  obtain ⟨ls₁, l₁, ls₂, v, v', rfl, hv, hstep₁, hls₂, rfl, hobs, rfl⟩ :=
    exists_step_of_observe h hhist
  -- the state at which the entry was inserted
  have hwritten : Written (history e ls₁) i.pid entry.id := by
    rcases obs_cases hobs with ⟨_, w, -, -, ho⟩ | ⟨d', -, hqueue, ho⟩ | ⟨_, _, -, -, ho⟩ |
      ⟨_, -, -, ho⟩ | ⟨-, ho⟩
    · cases ho
    · obtain rfl := Obs.applied.inj ho
      rw [← hd, ← hentry]
      exact (announced_exec hv).queue d (List.mem_of_head? hqueue)
    · cases ho
    · cases ho
    · cases ho
  obtain ⟨ls₃, ls₄, w, rfl, hw, hwv, hwid⟩ := entry_of_written hv hwritten
  obtain ⟨c₁, c₂, hsplit⟩ := List.append_of_mem ho
  obtain ⟨ls₅, l₅, ls₆, x, x', rfl, hx, hstep₅, hls₆, -, hobs₅, -⟩ :=
    exists_step_of_observe hls₂ hsplit
  cases o with
  | found j id' new' =>
    rw [Obs.finds, Obs.sights]
    by_cases hj : j.pid = i.pid
    · obtain ⟨j', entry', hj', -, -, hlookup', -⟩ :=
        found_step i.pid hstep₅ hobs₅ (if_pos hj)
      obtain ⟨rfl, rfl, -⟩ := Obs.found.inj hj'
      have hid' : x.kernel.entryId i.pid = some entry'.id :=
        Kernel.entryId_eq_some.mpr ⟨_, hlookup', rfl⟩
      have hvx : exec (step e) v (l₁ :: ls₅) = some x := exec_cons_eq_some.mpr ⟨v', hstep₁, hx⟩
      have hwx : exec (step e) w (ls₄ ++ l₁ :: ls₅) = some x :=
        exec_append_eq_some.mpr ⟨v, hwv, hvx⟩
      have hbx : exec (step e) boot ((ls₃ ++ ls₄) ++ l₁ :: ls₅) = some x :=
        exec_append_eq_some.mpr ⟨v, hv, hvx⟩
      have hxu : exec (step e) x (l₅ :: ls₆) = some u := exec_cons_eq_some.mpr ⟨x', hstep₅, hls₆⟩
      -- The entry found in between is not older than the announced one, nor newer than this one.
      have hle := entryId_le hw hwx hwid hid'
      have hge := entryId_le hbx hxu hid' hid
      rw [if_pos hj, if_pos ⟨hj, by omega⟩]
    · rw [if_neg hj, if_neg fun hand => hj hand.1]
  | wrote w => rfl
  | applied d => rfl
  | lost j => rfl
  | reset => rfl

/-- **Before the start event of an entry, no lookup has found it**, if the event finds the pid
untracked: the record of an earlier lookup would have been lost in between, and the entry with
it. -/
theorem sights_eq_none {u u' : System n} {l : SystemStep n} {i : ProcInfo} {id : ℕ}
    {new : ProcStats} (h : exec (step e) boot ls = some u)
    (hm : Meets (step e) (KeepsApart i.pid) boot ls) (hstep : u.step e l = some u')
    (hfound : u.obs l = some (.found i id new)) {before after : List (Obs n)} {d : Drained}
    (hhist : history e ls = before ++ .applied d :: after) (hd : d.event.pid = i.pid) :
    ∀ o ∈ before, o.sights i.pid id = none := by
  intro o ho
  have huntracked := recordOf_of_applied h hm hhist hd
  obtain ⟨i', entry, hi', -, -, hlookup, -⟩ := found_step i.pid hstep hfound (if_pos rfl)
  obtain ⟨rfl, rfl, -⟩ := Obs.found.inj hi'
  have hid : u.kernel.entryId i.pid = some entry.id := Kernel.entryId_eq_some.mpr ⟨_, hlookup, rfl⟩
  obtain ⟨ls₁, l₁, ls₂, v, v', rfl, hv, hstep₁, hls₂, rfl, -, -⟩ := exists_step_of_observe h hhist
  obtain ⟨c₁, c₂, hsplit⟩ := List.append_of_mem ho
  obtain ⟨ls₃, l₃, ls₄, w, w', rfl, hw, hstep₃, hls₄, hc₁, hobs₃, hc₂⟩ :=
    exists_step_of_observe hv hsplit
  cases o with
  | found j id' new' =>
    refine if_neg ?_
    rintro ⟨hj, rfl⟩
    obtain ⟨j', entry', hj', -, hmem, hlookup', -⟩ :=
      found_step i.pid hstep₃ hobs₃ (if_pos hj)
    obtain ⟨rfl, hentry', -⟩ := Obs.found.inj hj'
    have hid' : w.kernel.entryId i.pid = some entry.id :=
      Kernel.entryId_eq_some.mpr ⟨_, hlookup', hentry'.symm⟩
    have hrecord : recordOf i.pid (c₁ ++ [.found j entry.id new']) = some (j.sampled new') := by
      have hj₀ : recordOf i.pid c₁ = some j := by
        rw [← hc₁, ← hj]
        exact (follows_exec hw).record_of_mem hmem
      rw [recordOf_concat, hj₀]
      exact if_pos hj
    have hnone : recordOf i.pid ((c₁ ++ [.found j entry.id new']) ++ c₂) = none := by
      rw [List.append_assoc, List.singleton_append, ← hsplit]
      exact huntracked
    -- The record has been lost in between, when the pid had no entry: the next one is newer.
    obtain ⟨b₁, k, b₂, hb, hk⟩ := exists_lost _ hrecord hnone
    obtain ⟨ls₅, l₅, ls₆, x, x', rfl, hx, hstep₅, hls₆, -, hobs₅, -⟩ :=
      exists_step_of_observe hls₄ (hc₂.trans hb)
    have hgone : x.kernel.entryId i.pid = none := hk ▸ (lost_spec hstep₅ hobs₅).2.1
    have hwx : exec (step e) w (l₃ :: ls₅) = some x := exec_cons_eq_some.mpr ⟨w', hstep₃, hx⟩
    have hxv : exec (step e) x (l₅ :: ls₆) = some v := exec_cons_eq_some.mpr ⟨x', hstep₅, hls₆⟩
    have hvu : exec (step e) v (l₁ :: ls₂) = some u := exec_cons_eq_some.mpr ⟨v', hstep₁, hls₂⟩
    have hxu := exec_append_eq_some.mpr ⟨v, hxv, hvu⟩
    exact Nat.lt_irrefl _ (entryId_lt hw hwx hxu hid' hgone hid)
  | wrote w => rfl
  | applied d => rfl
  | lost j => rfl
  | reset => rfl

/-- What a later lookup of an entry finds is no less, as long as no counter overflows. -/
theorem lastSeen_le (h : exec (step e) boot ls = some s) {id : ℕ} {p : Protocol} {dir : Dir}
    (hfits : added (writesOf (history e ls)) id p dir < 2 ^ 64) :
    ((lastSeen pid id (history e ls)).counter p dir).toNat ≤
      added (writesOf (history e ls)) id p dir := by
  rcases latest_cases (Obs.sights pid id) default (history e ls) with hzero |
    ⟨before, o, after, hsplit, hsights⟩
  · rw [lastSeen, hzero]
    cases p <;> cases dir <;> exact Nat.zero_le _
  · have hfinds : o.finds pid = some (lastSeen pid id (history e ls)) := by
      cases o with
      | found i id' new =>
        obtain ⟨hi, hnew⟩ := Option.ite_none_right_eq_some.mp hsights
        rw [Obs.finds, if_pos hi.1]
        exact hnew
      | wrote w => cases hsights
      | applied d => cases hsights
      | lost i => cases hsights
      | reset => cases hsights
    obtain ⟨-, -, u, -, -, i, id', rfl, -, -, hcounted⟩ := found_spec h hsplit hfinds
    obtain rfl : id' = id := (Option.ite_none_right_eq_some.mp hsights).1.2
    have hparts : added (writesOf (history e ls)) id' p dir =
        added (writesOf before) id' p dir +
          added (writesOf (.found i id' (lastSeen pid id' (history e ls)) :: after)) id' p dir := by
      rw [← added_append, ← writesOf_append, ← hsplit]
    rw [hcounted, counted_eq_added (by omega)]
    omega

/-- **The row of a process whose start event found its pid untracked** has the name of the
event, and counts what has not been seen of its entry. -/
theorem row_of_found {u u' : System n} {l : SystemStep n} {i : ProcInfo} {id : ℕ}
    {new : ProcStats} (h : exec (step e) boot ls = some u)
    (hm : Meets (step e) (KeepsApart i.pid) boot ls) (hstep : u.step e l = some u')
    (hfound : u.obs l = some (.found i id new)) {before after : List (Obs n)} {d : Drained}
    (hhist : history e ls = before ++ .applied d :: after) (hd : d.event.pid = i.pid)
    (hentry : d.entry = id) (hlast : ∀ o ∈ after, ¬ o.starts i.pid)
    (hnothing : ResetsNothing i.pid (before ++ [.applied d]) after) :
    u'.sweep.out = u.sweep.out ++ [i.row new] ∧
      (i.row new).name = makeAsciiLowercase d.event.name ∧
      ∀ p dir, ((i.row new).delta p dir).toNat =
          (new.counter p dir).toNat -
            ((lastSeen i.pid id (history e ls)).counter p dir).toNat ∧
        (added (writesOf (history e ls)) id p dir < 2 ^ 64 →
          ((lastSeen i.pid id (history e ls)).counter p dir).toNat ≤
            (new.counter p dir).toNat) := by
  obtain ⟨i', entry, hi', -, hmem, hlookup, hnew, hout⟩ :=
    found_step i.pid hstep hfound (if_pos rfl)
  obtain ⟨rfl, rfl, -⟩ := Obs.found.inj hi'
  have hrecord : i = d.event.info.sampled (lastFound i.pid after) := by
    have hi := (follows_exec h).record_of_mem hmem
    rw [hhist, ← hd] at hi
    rw [← hd] at hlast hnothing ⊢
    exact record_since hlast hnothing hi
  have hseen : lastSeen i.pid entry.id (history e ls) = lastFound i.pid after := by
    have hsplit : history e ls = (before ++ [.applied d]) ++ after := by simp [hhist]
    have hbefore : ∀ o ∈ before ++ [.applied d], o.sights i.pid entry.id = none := by
      intro o ho
      rcases List.mem_append.mp ho with ho | ho
      · exact sights_eq_none h hm hstep hfound hhist hd o ho
      · rw [List.mem_singleton.mp ho]
        rfl
    rw [hsplit, lastSeen, latest_append, latest_of_none hbefore, lastFound]
    exact (latest_congr (finds_eq_sights h hstep hfound hhist hd hentry) _).symm
  refine ⟨hout, by rw [hrecord]; rfl, fun p dir => ⟨?_, fun hfits => ?_⟩⟩
  · rw [hseen]
    have hdelta : (i.row new).delta p dir =
        satSub (new.counter p dir) ((lastFound i.pid after).counter p dir) := by
      generalize lastFound i.pid after = seen at hrecord
      rw [hrecord]
      cases p <;> cases dir <;> rfl
    rw [hdelta, toNat_satSub]
  · have hcounted := (follows_exec h).ledger.counter_merged hlookup p dir
    rw [← hnew, counted_eq_added hfits] at hcounted
    rw [hcounted]
    exact lastSeen_le h hfits

/-- **The old process of a pid goes to the dead list** before a start event finds the pid
untracked, and stays there until enough processes have died after it, or a reset. -/
theorem dead_of_reuse (h : exec (step e) boot ls = some s)
    (hm : Meets (step e) (KeepsApart pid) boot ls) {before between after : List (Obs n)}
    {d₀ d : Drained}
    (hhist : history e ls = before ++ .applied d₀ :: between ++ .applied d :: after)
    (hd₀ : d₀.event.pid = pid) (hd : d.event.pid = pid) (hlast : ∀ o ∈ between, ¬ o.starts pid)
    (hnothing : ResetsNothing pid (before ++ [.applied d₀]) between) :
    ∃ b₁ i b₂, between = b₁ ++ .lost i :: b₂ ∧
      i = d₀.event.info.sampled (lastFound pid b₁) ∧
      (i ∈ s.sweep.deadProcs ∨ .reset ∈ b₂ ++ .applied d :: after ∨
        DEAD_PROC_LIMIT ≤ (deaths (b₂ ++ .applied d :: after)).length) := by
  have huntracked := recordOf_of_applied h hm hhist hd
  have hstart : recordOf pid (before ++ [.applied d₀]) = some d₀.event.info := by
    rw [recordOf_concat, Obs.track, if_pos hd₀]
  obtain ⟨b₁, i, b₂, rfl, hi⟩ := exists_lost between hstart (by simpa using huntracked)
  have hsplit : history e ls =
      (before ++ .applied d₀ :: b₁) ++ .lost i :: (b₂ ++ .applied d :: after) := by
    simp [hhist]
  obtain ⟨ls₁, l, ls₂, u, u', rfl, hu, hstep, -, hu₁, hobs, -⟩ := exists_step_of_observe h hsplit
  have hrecord : i = d₀.event.info.sampled (lastFound pid b₁) := by
    have hu₁ : history e ls₁ = before ++ .applied d₀ :: b₁ := hu₁
    have hrec := (follows_exec hu).record_of_mem (lost_spec hstep hobs).1
    subst hi
    rw [hu₁, ← hd₀] at hrec
    rw [← hd₀] at hlast hnothing ⊢
    exact record_since (fun o ho => hlast o (List.mem_append_left _ ho)) hnothing.of_append hrec
  refine ⟨b₁, i, b₂, rfl, hrecord, ?_⟩
  by_cases hreset : .reset ∈ b₂ ++ .applied d :: after
  · exact Or.inr (Or.inl hreset)
  by_cases hmany : DEAD_PROC_LIMIT ≤ (deaths (b₂ ++ .applied d :: after)).length
  · exact Or.inr (Or.inr hmany)
  refine Or.inl ?_
  rw [(follows_exec h).dead, hsplit, deaths_append, List.foldl_cons, foldl_bury hreset, Obs.bury,
    List.append_assoc, List.singleton_append]
  exact mem_rtake_of_length_lt (Nat.lt_of_not_le hmany) _ _

end System

/-- A process starts and sends its first bytes. -/
def arrives (pid : UInt32) (sent : UInt64) : List (SystemStep 1) :=
  .kernel (.spawn (leader pid)) :: (firstCall (Fin.last 0) (leader pid) sent).map .kernel

/-- A process that has been sampled exits, an iteration of the daemon finds its entry gone, and
a new process gets its pid. -/
def reusedAfterTick : List (SystemStep 1) :=
  arrives 7 100 ++
    [.tick, .drain "curl", .drained, .apply, .collect, .visit, .finish,
      .kernel (.exit (leader 7)), .tick, .drained, .collect, .visit, .finish] ++
    arrives 7 30 ++ [.tick, .drain "wget", .drained, .apply, .collect]

theorem reusedAfterTick_found :
    ∃ s s' i new, exec (System.step .little) .boot reusedAfterTick = some s ∧
      s.step .little .visit = some s' ∧ s.obs .visit = some (.found i 1 new) ∧ i.pid = 7 ∧
      new.tcp.bytes.sent = 30 := by
  obtain ⟨s, hs, hend⟩ := exists_exec_of_any (System.step .little) .boot
    reusedAfterTick
    (fun s => (s.step .little .visit).isSome && (s.obs .visit).any fun o =>
      match o with
      | .found i id new => decide (i.pid = 7 ∧ id = 1 ∧ new.tcp.bytes.sent = 30)
      | .wrote _ | .applied _ | .lost _ | .reset => false) (by decide +kernel)
  obtain ⟨hstep, hobs⟩ := Bool.and_eq_true_iff.mp hend
  obtain ⟨s', hs'⟩ := Option.isSome_iff_exists.mp hstep
  obtain ⟨o, ho, hfound⟩ := (Option.any_eq_true _ _).mp hobs
  cases o with
  | found i id new =>
    obtain ⟨hpid, rfl, hsent⟩ := of_decide_eq_true hfound
    exact ⟨s, s', i, new, hs, hs', ho, hpid, hsent⟩
  | wrote w => cases hfound
  | applied d => cases hfound
  | lost i => cases hfound
  | reset => cases hfound

/-- A process that has been sampled exits, and a new process that gets its pid inserts its
entry while the daemon is in an iteration, after it has consumed the ring buffer and before it
looks its processes up. -/
def reusedWithinTick : List (SystemStep 1) :=
  arrives 7 100 ++
    [.tick, .drain "curl", .drained, .apply, .collect, .visit, .finish,
      .kernel (.exit (leader 7)), .tick, .drained] ++
    arrives 7 30 ++
    [.collect, .visit, .finish, .tick, .drain "wget", .drained, .apply, .collect]

end Procnet
