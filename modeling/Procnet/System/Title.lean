import Procnet.System.Shown
import Procnet.Daemon.Control

/-!
# What the title of a frame says

Two numbers of the snapshot shown are in the title of the table: its tick and its interval. Any
client can have them changed, by a command that is carried out between two iterations, and a frame
is drawn some time after its snapshot was built, by a client that may have missed others. The
numbers have a meaning all the same (`title_tells_time`): they are what the commands carried out
before the snapshot was built have made of them, and from a frame to a later one the tick goes back
only if there has been a reset in between.
-/

namespace Procnet

open Lib

/-! ### The interval -/

/-- What a command makes of the interval, in milliseconds. -/
def DaemonCommand.intervalAfter : DaemonCommand → ℕ → ℕ
  | .run, n | .reset, n => n
  | .interval millis, _ => max 100 (min 5000 millis.toNat)
  | .intervalIncrease, n => max 100 (min 5000 (n + 100))
  | .intervalDecrease, n => max 100 (min 5000 (n - 100))

/-- The interval after the commands that have been carried out. -/
def intervalSince (hist : List ControlObs) : ℕ :=
  hist.foldl (fun n o =>
    match o with
    | .built _ _ => n
    | .updated command => command.intervalAfter n) 1000

@[simp] theorem intervalSince_built (hist : List ControlObs) (snapshot : SnapshotRef)
    (timeout : UInt64) :
    intervalSince (hist ++ [.built snapshot timeout]) = intervalSince hist := by
  rw [intervalSince, List.foldl_append]
  rfl

@[simp] theorem intervalSince_updated (hist : List ControlObs) (command : DaemonCommand) :
    intervalSince (hist ++ [.updated command]) = command.intervalAfter (intervalSince hist) := by
  rw [intervalSince, List.foldl_append]
  rfl

theorem toNat_clamp {lo hi : UInt64} (h : lo ≤ hi) (n : UInt64) :
    (clamp lo hi n).toNat = max lo.toNat (min hi.toNat n.toNat) := by
  have hle := UInt64.le_iff_toNat_le.mp h
  unfold clamp
  split_ifs with hlo hhi
  · have := UInt64.lt_iff_toNat_lt.mp hlo
    omega
  · have := UInt64.lt_iff_toNat_lt.mp hhi
    omega
  · have hlo' := UInt64.le_iff_toNat_le.mp (UInt64.not_lt.mp hlo)
    have hhi' := UInt64.le_iff_toNat_le.mp (UInt64.not_lt.mp hhi)
    omega

theorem DaemonState.toNat_interval_setInterval (s : DaemonState) (millis : UInt64) :
    (s.setInterval millis).interval.toNat = max 100 (min 5000 millis.toNat) :=
  toNat_clamp (by decide) millis

/-- What an update makes of the interval, machine integers and all. -/
theorem DaemonState.toNat_interval_update {s s' : DaemonState} {command : DaemonCommand}
    (h : s.update command = some s') :
    s'.interval.toNat = command.intervalAfter s.interval.toNat := by
  cases command with
  | run => cases h
  | reset => rw [(update_reset h).1, DaemonCommand.intervalAfter]
  | interval millis =>
    obtain rfl := Option.some.inj h
    exact s.toNat_interval_setInterval millis
  | intervalIncrease =>
    obtain rfl := Option.some.inj h
    rw [toNat_interval_setInterval, toNat_interval_add, DaemonCommand.intervalAfter]
  | intervalDecrease =>
    obtain rfl := Option.some.inj h
    rw [toNat_interval_setInterval, toNat_interval_sub, DaemonCommand.intervalAfter]

/-! ### The daemon keeps time -/

/-- The snapshot that an iteration has built. -/
def ControlObs.built? : ControlObs → Option SnapshotData
  | .built snapshot _ => some snapshot.toData
  | .updated _ => none

/-- Without a reset, all the snapshots count. -/
theorem ticksSince_append {later : List ControlObs} (h : .updated .reset ∉ later)
    (hist : List ControlObs) :
    ticksSince (hist ++ later) = ticksSince hist + (later.filterMap ControlObs.built?).length := by
  induction later using List.reverseRecOn with
  | nil => simp
  | append_singleton later o ih =>
    have hlater : .updated .reset ∉ later := fun hmem => h (List.mem_append_left _ hmem)
    have hne : o ≠ .updated .reset := fun heq => h (by simp [heq])
    rw [← List.append_assoc, List.filterMap_append]
    cases o with
    | built snapshot timeout =>
      rw [ticksSince_built, ih hlater, List.length_append, ← Nat.add_assoc]
      rfl
    | updated command =>
      rw [ticksSince_updated (fun heq => hne (by rw [heq])), ih hlater]
      simp [ControlObs.built?]

namespace Daemon

variable {e : Endian} {d d' : Daemon} {hist : List ControlObs}

/-- **What the thread of a connection does with the state**, and what is seen of it. -/
theorem state_clientStep {i : ℕ} {c : Conn} (hc : d.conns[i]? = some c) (ok : Bool) :
    (d.control e (.client i ok) = none ∧ (d.clientStep i ok c).state = d.state) ∨
    ∃ command, d.control e (.client i ok) = some (.updated command) ∧
      (d.state.update command = some (d.clientStep i ok c).state ∨
        command = .run ∧ (d.clientStep i ok c).state = d.state) := by
  rcases hstep : c.step ok with ⟨c', _ | command⟩
  · -- Nothing has been read that is to be carried out.
    refine Or.inl ⟨?_, by rw [clientStep, hstep]⟩
    rw [control, hc, Option.bind_some, hstep]
    exact ite_self none
  · cases hp : d.poisoned with
    | true =>
      -- The lock is poisoned, and the command is dropped.
      exact Or.inl ⟨by rw [control, hp, if_pos rfl], by simp [clientStep, hstep, pass, hp]⟩
    | false =>
      refine Or.inr ⟨command, ?_, ?_⟩
      · rw [control, hp, if_neg (by decide), hc, Option.bind_some, hstep]
        rfl
      · rw [clientStep, hstep]
        cases hs : d.state.update command with
        | none =>
          -- The thread panics, and leaves the state as it is.
          exact Or.inr ⟨DaemonState.update_eq_none_iff.mp hs, by simp [pass, hp, hs]⟩
        | some s => exact Or.inl (by simp [pass, hp, hs])

/-- The step lemma: the interval is what the commands have made of it. -/
theorem interval_step {l : Step} (h : d.state.interval.toNat = intervalSince hist)
    (hs : d.step e l = some d') :
    d'.state.interval.toNat = intervalSince (hist ++ (d.control e l).toList) := by
  rcases step_cases hs with ⟨stream, rfl, rfl⟩ | ⟨i, ok, c, rfl, hc, rfl⟩ |
    ⟨drained, m, rfl, rfl⟩ | ⟨rfl, rfl⟩
  · simpa [control] using h
  · rcases state_clientStep (e := e) hc ok with
      ⟨hnone, hstate⟩ | ⟨command, hsome, hupdate | ⟨rfl, hstate⟩⟩
    · simpa [hnone, hstate] using h
    · rw [hsome, Option.toList_some, intervalSince_updated, ← h]
      exact DaemonState.toNat_interval_update hupdate
    · rw [hsome, Option.toList_some, intervalSince_updated, hstate]
      exact h
  · cases drained with
    | none => cases hp : d.poisoned <;> simpa [control, runOnce, hp] using h
    | some events =>
      cases hp : d.poisoned with
      | true => simpa [control, runOnce, hp] using h
      | false =>
        rw [(runOnce_some hp events m).1, control, hp, if_neg (by decide), Option.toList_some,
          intervalSince_built]
        exact h
  · simpa [control] using h

theorem interval_exec {ls : List Step} (h : exec (step e) .new ls = some d) :
    d.state.interval.toNat = intervalSince (observe (step e) (control e) .new ls) :=
  exec_observe (C := fun _ _ => True)
    (R := fun d hist => d.state.interval.toNat = intervalSince hist)
    (fun _ _ _ _ _ hc hs => interval_step hc hs) (meets_of_forall (fun _ _ => trivial) _ _) rfl h

/-- The numbers that an iteration puts into its snapshot. -/
theorem numbers_of_control {l : Step} {o : ControlObs} {snap : SnapshotData}
    (h : d.control e l = some o) (ho : o.built? = some snap) :
    snap.interval = d.state.interval ∧ snap.tick = d.state.tick + 1 := by
  cases l with
  | tick drained m =>
    cases drained with
    | none => cases h
    | some events =>
      obtain ⟨-, hbuilt⟩ := Option.ite_none_left_eq_some.mp h
      obtain rfl := Option.some.inj hbuilt
      obtain rfl := Option.some.inj ho
      exact ⟨rfl, rfl⟩
  | client i ok =>
    obtain ⟨-, hupd⟩ := Option.ite_none_left_eq_some.mp h
    obtain ⟨c, -, hc⟩ := Option.bind_eq_some_iff.mp hupd
    obtain ⟨command, -, rfl⟩ := Option.map_eq_some_iff.mp hc
    cases ho
  | accept stream => cases h
  | shutdown => cases h

/-- **Every snapshot tells the time**: its tick is the number of the snapshots since the last reset,
itself included, and its interval the one that the commands have made. -/
theorem built_tells_time {ls : List Step} (h : exec (step e) .new ls = some d)
    {before after : List ControlObs} {o : ControlObs} {snap : SnapshotData}
    (hobs : observe (step e) (control e) .new ls = before ++ o :: after)
    (ho : o.built? = some snap) :
    snap.interval.toNat = intervalSince before ∧
      snap.tick = UInt64.ofNat (ticksSince before + 1) := by
  obtain ⟨ls₁, l, -, u, -, -, hu, -, -, rfl, hl, -⟩ := exists_step_of_observe h hobs
  obtain ⟨hinterval, htick⟩ := numbers_of_control hl ho
  refine ⟨by rw [hinterval, interval_exec hu], ?_⟩
  rw [htick, counts_exec hu, UInt64.ofNat_add]
  rfl

end Daemon

/-! ### In the service -/

/-- What the step is to the daemon without its writers. -/
def ServiceStep.daemon? : ServiceStep → Option Step
  | .accept stream => some (.accept stream)
  | .reader i ok => some (.client i ok)
  | .tick drained m => some (.tick drained m)
  | .shutdown => some .shutdown
  | .broadcast | .fan _ => none

namespace Service

/-- What a step does with the interval and the tick. -/
def control (e : Endian) (s : Service) (l : ServiceStep) : Option ControlObs :=
  l.daemon?.bind (s.daemon.control e)

/-- What a run has done with them. -/
def controlOf (e : Endian) (ls : List ServiceStep) : List ControlObs :=
  observe (step e) (control e) .new ls

variable {e : Endian} {s s' : Service} {ls : List ServiceStep}

theorem daemon_step {l : ServiceStep} (h : s.step e l = some s') :
    exec (Daemon.step e) s.daemon l.daemon?.toList = some s'.daemon := by
  obtain ⟨-, ⟨stream, daemon, fanout, rfl, hd, -, rfl⟩ | ⟨i, ok, daemon, rfl, hd, hcases⟩ |
    ⟨drained, m, daemon, rfl, -, hd, rfl⟩ | ⟨bytes, fanout, rfl, -, -, rfl⟩ |
    ⟨m, fanout, rfl, -, -, rfl⟩ | ⟨daemon, rfl, hd, rfl⟩⟩ := step_cases h
  · exact (exec_singleton _ _).trans hd
  · rcases hcases with ⟨-, rfl⟩ | ⟨m, fanout, -, -, rfl⟩
    · exact (exec_singleton _ _).trans hd
    · exact (exec_singleton _ _).trans hd
  · exact (exec_singleton _ _).trans hd
  · rfl
  · rfl
  · exact (exec_singleton _ _).trans hd

/-- Every snapshot of a run of the service tells the time. -/
theorem built_tells_time (h : exec (step e) .new ls = some s) {before after : List ControlObs}
    {o : ControlObs} {snap : SnapshotData} (hobs : controlOf e ls = before ++ o :: after)
    (ho : o.built? = some snap) :
    snap.interval.toNat = intervalSince before ∧
      snap.tick = UInt64.ofNat (ticksSince before + 1) := by
  have hstep : ∀ (s : Service) l s', s.step e l = some s' →
      exec (Daemon.step e) s.daemon l.daemon?.toList = some s'.daemon :=
    fun s l s' hs => daemon_step hs
  have hdaemon : exec (Daemon.step e) .new (ls.filterMap ServiceStep.daemon?) = some s.daemon :=
    exec_filterMap Service.daemon ServiceStep.daemon? hstep h
  have hsame : observe (Daemon.step e) (Daemon.control e) .new (ls.filterMap ServiceStep.daemon?) =
      controlOf e ls :=
    observe_filterMap Service.daemon ServiceStep.daemon? hstep (fun _ _ _ _ => rfl) h
  exact Daemon.built_tells_time hdaemon (hsame.trans hobs) ho

/-- The snapshots that are handed out are among those that have been built. -/
theorem builtOf_sublist (h : exec (step e) .new ls = some s) :
    (builtOf e ls).Sublist ((controlOf e ls).filterMap ControlObs.built?) := by
  -- The last snapshot may have been built and not been serialized.
  refine observe_sublist_filterMap (fun s l s' _ => ?_) h
  cases l with
  | tick drained m =>
    cases drained with
    | none => exact List.nil_sublist _
    | some events =>
      simp only [built, control, ServiceStep.daemon?, Option.bind_some, Daemon.control]
      split_ifs
      · exact List.Sublist.refl _
      · exact List.Sublist.refl _
      · exact List.nil_sublist _
  | accept | reader | broadcast | fan | shutdown => exact List.nil_sublist _

end Service

/-! ### On the screen -/

/-- Two snapshots that a client shows, one after the other. -/
theorem nthShown_pair {msgs : List SnapshotData} {j k : ℕ} (hjk : j ≤ k) (hk : k ≤ msgs.length) :
    nthShown msgs j = blank ∨ nthShown msgs k = nthShown msgs j ∨
      [nthShown msgs j, nthShown msgs k].Sublist msgs := by
  rcases j with _ | j
  · exact Or.inl rfl
  · rcases Nat.eq_or_lt_of_le hjk with rfl | hlt
    · exact Or.inr (Or.inl rfl)
    · obtain ⟨k, rfl⟩ : ∃ k', k = k' + 1 := ⟨k - 1, by omega⟩
      have hshown : ∀ {n : ℕ} (hn : n < msgs.length), nthShown msgs (n + 1) = msgs[n] := by
        intro n hn
        simp [nthShown, hn]
      have hj : j < msgs.length := by omega
      refine Or.inr (Or.inr ?_)
      have hpair : [(⟨j, hj⟩ : Fin msgs.length), ⟨k, hk⟩].Pairwise (· < ·) :=
        List.pairwise_pair.mpr (Nat.lt_of_succ_lt_succ hlt)
      rw [hshown hj, hshown hk]
      exact List.map_getElem_sublist hpair

/-- **What the title of a frame says.** Let a client read some first part of what is on the wire of
a connection, in any pieces, in a run of the service with any number of other clients. Every
snapshot built in the run tells the time. Every frame of the client shows one of them, or none yet;
and of two frames that differ the later one shows a snapshot built later. Without a reset in between
its tick is higher by as many snapshots as have been built since the earlier one. -/
theorem title_tells_time (e : Endian) {ls : List ServiceStep} {s : Service} {i : ℕ} {k : Connection}
    {command : Option Command} {ks : List ClientStep} {c : ClientProcess}
    (h : exec (Service.step e) .new ls = some s) (hk : s.fanout.conns[i]? = some k)
    (hc : exec ClientProcess.step (.start command) ks = some c)
    (hsource : c.source.bytes <+: k.wire) :
    (∀ before o after snap, Service.controlOf e ls = before ++ o :: after →
      o.built? = some snap →
      snap.interval.toNat = intervalSince before ∧
        snap.tick = UInt64.ofNat (ticksSince before + 1)) ∧
    (∀ snap ∈ drawnOf (ClientProcess.history command ks), snap = blank ∨
      ∃ before o after, Service.controlOf e ls = before ++ o :: after ∧ o.built? = some snap) ∧
    (drawnOf (ClientProcess.history command ks)).Pairwise fun snap snap' =>
      snap = blank ∨ snap' = snap ∨ ∃ before o between o' after,
        Service.controlOf e ls = before ++ o :: (between ++ o' :: after) ∧
        o.built? = some snap ∧ o'.built? = some snap' ∧
        (.updated .reset ∉ between → snap'.tick =
          snap.tick + UInt64.ofNat ((between.filterMap ControlObs.built?).length + 1)) := by
  obtain ⟨msgs, hmsgs, -, hfeed⟩ := (Composed.exec h).feed hk hc hsource
  obtain ⟨shown, hsorted, hbound, hdrawn⟩ := hfeed.drawn
  have hsub : msgs.Sublist ((Service.controlOf e ls).filterMap ControlObs.built?) :=
    hmsgs.trans (Service.builtOf_sublist h)
  have htime : ∀ before o after snap, Service.controlOf e ls = before ++ o :: after →
      o.built? = some snap → snap.interval.toNat = intervalSince before ∧
        snap.tick = UInt64.ofNat (ticksSince before + 1) :=
    fun before o after snap => Service.built_tells_time h
  refine ⟨htime, fun snap hsnap => ?_, ?_⟩
  · rw [hdrawn] at hsnap
    obtain ⟨j, -, rfl⟩ := List.mem_map.mp hsnap
    refine (nthShown_cases msgs j).imp_right fun hmem => ?_
    obtain ⟨o, hmem', ho⟩ := List.mem_filterMap.mp (hsub.subset hmem)
    obtain ⟨before, after, hsplit⟩ := List.append_of_mem hmem'
    exact ⟨before, o, after, hsplit, ho⟩
  · have htaken : (takenOf (ClientProcess.history command ks)).length ≤ msgs.length := by
      obtain ⟨n, -, hqueued⟩ := hfeed.received
      have hlen := congrArg List.length hqueued
      rw [List.length_append, List.length_take] at hlen
      omega
    rw [hdrawn, List.pairwise_map]
    refine hsorted.imp_of_mem fun {j j'} hj hj' hle => ?_
    refine (nthShown_pair hle ((hbound j' hj').trans htaken)).imp_right
      (Or.imp_right fun hpair => ?_)
    obtain ⟨before, o, between, o', after, hsplit, ho, ho'⟩ :=
      exists_of_pair_sublist_filterMap (hpair.trans hsub)
    refine ⟨before, o, between, o', after, hsplit, ho, ho', fun hreset => ?_⟩
    -- Both tell the time, and the clock has gone on by the snapshots in between.
    have htick := (htime before o _ _ hsplit ho).2
    have htick' := (htime (before ++ o :: between) o' after _ (by simp [hsplit]) ho').2
    have hone : ticksSince (before ++ [o]) = ticksSince before + 1 := by
      rw [ticksSince_append]
      · simp [ho]
      · intro hmem
        rw [List.mem_singleton] at hmem
        subst hmem
        cases ho
    rw [htick', htick, ← UInt64.ofNat_add, List.append_cons, ticksSince_append hreset, hone,
      Nat.add_assoc (ticksSince before + 1)]

/-- A client is served twice; in between it has the interval increased. -/
def titledRun : List ServiceStep :=
  [.accept [.bytes 4 [0, 0, 0, 0, 0], .bytes 4 [0, 2, 0, 0, 0]], .reader 0 true, .reader 0 true,
    .reader 0 true, .fan (.conn 0 (.arm true)), .fan (.join 0 true), .tick (some []) (firstPids 0),
    .broadcast, .fan (.offer 0), .fan .finish, .fan (.conn 0 .recv), .fan (.conn 0 (.write 34)),
    .reader 0 true, .tick (some []) (firstPids 0), .broadcast, .fan (.offer 0), .fan .finish,
    .fan (.conn 0 .recv), .fan (.conn 0 (.write 34))]

/-- What its socket delivers. -/
def titledSource : Source :=
  Source.putBack (SnapshotData.frame ⟨1000, 1, [], []⟩)
    (Source.putBack (SnapshotData.frame ⟨1100, 2, [], []⟩) [])

/-- It draws both snapshots. -/
def titledClient : List ClientStep :=
  [.connect (some titledSource), .clone true, .send none, .tuiNew true, .receive, .tryRecv,
    .tryRecv, .draw (some 5), .event (some .timeout) none, .receive, .tryRecv, .tryRecv,
    .draw (some 5)]

theorem title_tells_time_twice :
    drawnOf (ClientProcess.history none titledClient) =
        [⟨1000, 1, [], []⟩, ⟨1100, 2, [], []⟩] ∧
      ∃ before o between o' after,
        Service.controlOf .little titledRun = before ++ o :: (between ++ o' :: after) ∧
        o.built? = some ⟨1000, 1, [], []⟩ ∧ o'.built? = some ⟨1100, 2, [], []⟩ := by
  obtain ⟨s, hs, hp⟩ := exists_exec_of_any (Service.step .little) .new titledRun
    (fun s => s.fanout.conns[0]?.any fun k => decide (titledSource.bytes <+: k.wire))
    (by decide +kernel)
  obtain ⟨k, hk, hwire⟩ := (Option.any_eq_true _ _).mp hp
  obtain ⟨c, hc, hsource⟩ := exists_exec_of_any ClientProcess.step (.start none) titledClient
    (fun c => c.source = titledSource) (by decide +kernel)
  have hdrawn : drawnOf (ClientProcess.history none titledClient) =
      [⟨1000, 1, [], []⟩, ⟨1100, 2, [], []⟩] := by decide +kernel
  obtain ⟨-, -, hpair⟩ := title_tells_time .little hs hk hc
    (by rw [of_decide_eq_true hsource]; exact of_decide_eq_true hwire)
  rw [hdrawn, List.pairwise_pair] at hpair
  rcases hpair with hblank | hsame | ⟨before, o, between, o', after, hsplit, ho, ho', -⟩
  · cases hblank
  · cases hsame
  · exact ⟨hdrawn, before, o, between, o', after, hsplit, ho, ho'⟩

end Procnet
