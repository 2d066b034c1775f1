import Procnet.Daemon.Delivery
import Procnet.Daemon.Sends

/-!
# The daemon with all its threads

`Daemon` is about the threads that read the connections and `Fanout` about those that write them.
They are of one program: the thread of a connection reads the initial command and then becomes its
writer, the clone of its stream is held until the reading ends, and the main loop hands out the
snapshot it has serialized before it waits for the next iteration. A step of the `Service` is a step
of one of the two, or a step of both where they are the same (`Conn.notice`).

As in `Daemon`, the accept loop does not panic, so that the main loop never finds it finished.

* `service_threads_agree` – the two views of a connection never disagree, so that none of them
  excludes what the other one allows.
* `iteration_completes` – no client keeps the main loop from its next iteration.
-/

namespace Procnet

open Lib

/-- The daemon, with all its threads. -/
structure Service where
  daemon : Daemon
  fanout : Fanout
  /-- The snapshot that the main loop has serialized, and not begun to hand out. -/
  shared : Option (List UInt8)

/-- What can happen next. -/
inductive ServiceStep where
  | accept (stream : Source) : ServiceStep
  /-- A step of the thread that reads a connection. -/
  | reader (i : ℕ) (ok : Bool) : ServiceStep
  /-- The main loop builds a snapshot, and serializes it. -/
  | tick (drained : Option (List ProcStartEvent)) (statsMap : StatsMap) : ServiceStep
  /-- `update_streams` locks the list of senders. -/
  | broadcast : ServiceStep
  /-- Any other step of `update_streams`, of the writers and of the clients. -/
  | fan (l : FanoutStep) : ServiceStep
  | shutdown : ServiceStep

/-- What the thread that writes a connection notices of a step of the one that reads it: whether it
is to serve the client, and when the clone of the stream is dropped. -/
def Conn.notice (c c' : Conn) : Option ConnStep :=
  match c, c' with
  | .opening _, .closed | .initial _, .closed | .handover _, .closed => some (.command false)
  | .handover _, .streaming _ => some (.command true)
  | .streaming reader, .closed =>
    some (.readerExit (readMsg DaemonCommand.codec.decode reader matches .error .eof))
  | _, _ => none

/-- The steps of a connection that its reading thread knows nothing of. -/
def ConnStep.own : ConnStep → Bool
  | .command _ | .readerExit _ => false
  | .arm _ | .recv | .write _ | .fail | .dropReceiver | .dropStream | .clientRead _ | .clientEof |
    .clientClose => true

/-- The steps that the other view knows nothing of. -/
def FanoutStep.own : FanoutStep → Bool
  | .conn _ l => l.own
  | .accept _ | .broadcast _ => false
  | .join _ _ | .starve _ | .offer _ | .finish => true

namespace Service

/-- The daemon at its start. -/
def new : Service := ⟨.new, .new, none⟩

/-- The main loop is between two iterations. -/
def waits (s : Service) : Bool :=
  match s.shared, s.fanout.senders with
  | none, .unlocked _ => true
  | _, _ => false

/-- One step of the daemon or of a client, as long as the main loop runs. -/
def step (e : Endian) (s : Service) (l : ServiceStep) : Option Service :=
  if s.daemon.exit.isSome then none
  else
    match l with
    | .accept stream =>
      (s.daemon.step e (.accept stream)).bind fun daemon =>
        (s.fanout.step (.accept s.fanout.conns.length)).map fun fanout => { s with daemon, fanout }
    | .reader i ok =>
      (s.daemon.step e (.client i ok)).bind fun daemon =>
        match (s.daemon.conns[i]?).bind fun c => (daemon.conns[i]?).bind c.notice with
        | none => some { s with daemon }
        | some l => (s.fanout.step (.conn i l)).map fun fanout => { s with daemon, fanout }
    | .tick drained statsMap =>
      if s.waits then
        (s.daemon.step e (.tick drained statsMap)).map fun daemon =>
          { s with daemon, shared := if daemon.exit.isNone then some daemon.buf else none }
      else none
    | .broadcast =>
      s.shared.bind fun bytes =>
        (s.fanout.step (.broadcast bytes)).map fun fanout => { s with fanout, shared := none }
    | .fan l => if l.own then (s.fanout.step l).map fun fanout => { s with fanout } else none
    | .shutdown =>
      if s.waits then (s.daemon.step e .shutdown).map fun daemon => { s with daemon } else none

/-- The snapshot that a step builds, and serializes. -/
def built (e : Endian) (s : Service) : ServiceStep → Option SnapshotData
  | .tick (some events) m =>
    if s.daemon.poisoned then none
    else if (s.daemon.runOnce e (some events) m).exit.isNone then
      some (s.daemon.snapshot e events m).toData
    else none
  | .tick none _ | .accept _ | .reader _ _ | .broadcast | .fan _ | .shutdown => none

/-- The snapshots that a run has built. -/
def builtOf (e : Endian) (ls : List ServiceStep) : List SnapshotData :=
  observe (step e) (built e) .new ls

variable {e : Endian} {s s' : Service} {l : ServiceStep}

/-- **What a step can do.** -/
theorem step_cases (h : s.step e l = some s') : s.daemon.exit = none ∧
    ((∃ stream daemon fanout, l = .accept stream ∧ s.daemon.step e (.accept stream) = some daemon ∧
      s.fanout.step (.accept s.fanout.conns.length) = some fanout ∧
      s' = { s with daemon, fanout }) ∨
    (∃ i ok daemon, l = .reader i ok ∧ s.daemon.step e (.client i ok) = some daemon ∧
      (((s.daemon.conns[i]?).bind fun c => (daemon.conns[i]?).bind c.notice) = none ∧
          s' = { s with daemon } ∨
        ∃ m fanout, ((s.daemon.conns[i]?).bind fun c => (daemon.conns[i]?).bind c.notice) = some m ∧
          s.fanout.step (.conn i m) = some fanout ∧ s' = { s with daemon, fanout })) ∨
    (∃ drained m daemon, l = .tick drained m ∧ s.waits = true ∧
      s.daemon.step e (.tick drained m) = some daemon ∧
      s' = { s with daemon, shared := if daemon.exit.isNone then some daemon.buf else none }) ∨
    (∃ bytes fanout, l = .broadcast ∧ s.shared = some bytes ∧
      s.fanout.step (.broadcast bytes) = some fanout ∧ s' = { s with fanout, shared := none }) ∨
    (∃ m fanout, l = .fan m ∧ m.own = true ∧ s.fanout.step m = some fanout ∧
      s' = { s with fanout }) ∨
    (∃ daemon, l = .shutdown ∧ s.daemon.step e .shutdown = some daemon ∧
      s' = { s with daemon })) := by
  unfold step at h
  split at h
  case isTrue => cases h
  case isFalse hexit =>
    refine ⟨by simpa using hexit, ?_⟩
    cases l with
    | accept stream =>
      obtain ⟨daemon, hd, hmap⟩ := Option.bind_eq_some_iff.mp h
      obtain ⟨fanout, hf, rfl⟩ := Option.map_eq_some_iff.mp hmap
      exact Or.inl ⟨stream, daemon, fanout, rfl, hd, hf, rfl⟩
    | reader i ok =>
      obtain ⟨daemon, hd, hmap⟩ := Option.bind_eq_some_iff.mp h
      refine Or.inr (Or.inl ⟨i, ok, daemon, rfl, hd, ?_⟩)
      split at hmap
      case h_1 hnotice => exact Or.inl ⟨hnotice, (Option.some.inj hmap).symm⟩
      case h_2 m hnotice =>
        obtain ⟨fanout, hf, rfl⟩ := Option.map_eq_some_iff.mp hmap
        exact Or.inr ⟨m, fanout, hnotice, hf, rfl⟩
    | tick drained m =>
      simp only at h
      split at h
      case isFalse => cases h
      case isTrue hwaits =>
        obtain ⟨daemon, hd, rfl⟩ := Option.map_eq_some_iff.mp h
        exact Or.inr (Or.inr (Or.inl ⟨drained, m, daemon, rfl, hwaits, hd, rfl⟩))
    | broadcast =>
      obtain ⟨bytes, hshared, hmap⟩ := Option.bind_eq_some_iff.mp h
      obtain ⟨fanout, hf, rfl⟩ := Option.map_eq_some_iff.mp hmap
      exact Or.inr (Or.inr (Or.inr (Or.inl ⟨bytes, fanout, rfl, hshared, hf, rfl⟩)))
    | fan m =>
      simp only at h
      split at h
      case isFalse => cases h
      case isTrue hown =>
        obtain ⟨fanout, hf, rfl⟩ := Option.map_eq_some_iff.mp h
        exact Or.inr (Or.inr (Or.inr (Or.inr (Or.inl ⟨m, fanout, rfl, hown, hf, rfl⟩))))
    | shutdown =>
      simp only at h
      split at h
      case isFalse => cases h
      case isTrue =>
        obtain ⟨daemon, hd, rfl⟩ := Option.map_eq_some_iff.mp h
        exact Or.inr (Or.inr (Or.inr (Or.inr (Or.inr ⟨daemon, rfl, hd, rfl⟩))))

end Service

/-! ### The two views of a connection -/

/-- **The views of the reading thread and of the writing one agree**: before `run` they are one
thread, which holds the clone of the stream; a connection that streams is written by the one and
read by the other, and at the end of the reading the clone is dropped. -/
def Conn.Linked (k : Connection) : Conn → Prop
  | .opening _ | .initial _ | .handover _ => k.writer = .initial ∧ k.clone = true
  | .streaming _ => k.writer ≠ .initial ∧ k.clone = true
  | .closed => k.writer ≠ .initial ∧ k.clone = false

theorem Conn.Linked.congr {c : Conn} {k k' : Connection} (h : c.Linked k)
    (hclone : k'.clone = k.clone) (hwriter : k'.writer = .initial ↔ k.writer = .initial) :
    c.Linked k' := by
  cases c with
  | opening stream => exact ⟨hwriter.mpr h.1, hclone.trans h.2⟩
  | initial reader => exact ⟨hwriter.mpr h.1, hclone.trans h.2⟩
  | handover stream => exact ⟨hwriter.mpr h.1, hclone.trans h.2⟩
  | streaming reader => exact ⟨hwriter.not.mpr h.1, hclone.trans h.2⟩
  | closed => exact ⟨hwriter.not.mpr h.1, hclone.trans h.2⟩

namespace Connection

variable {k k' : Connection}

theorem sending_ne_initial (rest : List UInt8) : Writer.sending rest ≠ .initial := by
  unfold Writer.sending
  split <;> simp

/-- The other steps of a connection do not touch what the views share. -/
theorem shared_of_own {l : ConnStep} (hl : l.own = true) (h : k.step l = some k') :
    k'.clone = k.clone ∧ (k'.writer = .initial ↔ k.writer = .initial) := by
  unfold step at h
  split at h
  case h_1 => cases hl
  case h_2 => cases hl
  case h_3 hw => obtain rfl := Option.some.inj h; simp [hw]
  case h_4 hw => obtain rfl := Option.some.inj h; simp [hw]
  case h_5 hw =>
    split at h
    · cases h
    · obtain rfl := Option.some.inj h
      simp [hw, sending_ne_initial]
  case h_6 hw =>
    split at h
    · obtain rfl := Option.some.inj h
      simp [hw, sending_ne_initial]
    · cases h
  case h_7 hw => obtain rfl := Option.some.inj h; simp [hw]
  case h_8 hw => obtain rfl := Option.some.inj h; simp [hw]
  case h_9 hw => obtain rfl := Option.some.inj h; simp [hw]
  case h_10 => cases hl
  all_goals
    first
    | cases h
    | split at h
      · obtain rfl := Option.some.inj h
        exact ⟨rfl, Iff.rfl⟩
      · cases h

end Connection

/-- What the two views share is left alone. -/
def Connection.SameShared (k k' : Connection) : Prop :=
  k'.clone = k.clone ∧ (k'.writer = .initial ↔ k.writer = .initial)

theorem Connection.SameShared.refl (k : Connection) : k.SameShared k := ⟨rfl, Iff.rfl⟩

/-- **The other steps of the daemon** do not touch it either. -/
theorem Fanout.shared_of_own {s s' : Fanout} {l : FanoutStep} (hl : l.own = true)
    (h : s.step l = some s') (j : ℕ) :
    Option.Rel Connection.SameShared s.conns[j]? s'.conns[j]? := by
  have hview := s.step_view j h
  have hrefl : ∀ o : Option Connection, Option.Rel Connection.SameShared o o := by
    rintro (_ | k)
    · exact .none
    · exact .some (.refl k)
  rw [← Fanout.view_conn, ← Fanout.view_conn]
  cases hseen : l.seenBy j with
  | none =>
    rw [hseen] at hview
    obtain hsame : s.view j = s'.view j := by simpa using hview
    rw [hsame]
    exact hrefl _
  | some m =>
    rw [hseen, Option.toList_some, exec_singleton] at hview
    rcases View.step_cases hview with ⟨rfl, -, -⟩ | ⟨l', k, k₁, rfl, hk, hstep, hv⟩ |
      ⟨k, hm, hk, hv⟩ | ⟨k, rfl, hk, hw, -, hv⟩ | ⟨bytes, rfl, -, -⟩ |
      ⟨k, bytes, todo, rfl, hk, -, hv⟩ | ⟨bytes, rfl, -, hv⟩
    · cases l <;> simp [FanoutStep.seenBy, FanoutStep.own] at hseen hl
    · have hown : l'.own = true := by
        cases l <;> simp [FanoutStep.seenBy, FanoutStep.own] at hseen hl
        exact hseen.2 ▸ hl
      rw [hv, hk]
      exact .some (Connection.shared_of_own hown hstep)
    · have hw : k.writer ≠ .initial := by rcases hm with ⟨-, hw⟩ | ⟨-, hw⟩ <;> simp [hw]
      rw [hv, hk]
      exact .some ⟨rfl, by simp [hw]⟩
    · rw [hv, hk]
      exact .some ⟨rfl, by simp [hw]⟩
    · cases l <;> simp [FanoutStep.seenBy, FanoutStep.own] at hseen hl
    · rcases hv with ⟨-, hv⟩ | ⟨-, hv⟩
      · rw [hv]
        exact hrefl _
      · obtain ⟨queue, hqueue⟩ := k.trySend_frame bytes
        rw [hv, hk, hqueue]
        exact .some ⟨rfl, Iff.rfl⟩
    · rw [hv]
      exact hrefl _

/-- What the reading thread can leave of its connection: a command that meets a poisoned lock, or
poisons it, ends the thread. -/
theorem Daemon.conns_clientStep (d : Daemon) (i : ℕ) (ok : Bool) (c : Conn) :
    ∃ c', (d.clientStep i ok c).conns = d.conns.set i c' ∧
      (c' = (c.step ok).1 ∨ c' = .closed ∧ (c.step ok).2 ≠ none) := by
  rcases hstep : c.step ok with ⟨c', _ | msg⟩
  · exact ⟨c', by rw [Daemon.clientStep, hstep], Or.inl rfl⟩
  · cases hp : d.poisoned with
    | true =>
      exact ⟨.closed, by simp [Daemon.clientStep, hstep, Daemon.pass, hp], Or.inr ⟨rfl, by simp⟩⟩
    | false =>
      cases hs : d.state.update msg with
      | none =>
        refine ⟨.closed, ?_, Or.inr ⟨rfl, by simp⟩⟩
        simp [Daemon.clientStep, hstep, Daemon.pass, hp, hs]
      | some state =>
        exact ⟨c', by simp [Daemon.clientStep, hstep, Daemon.pass, hp, hs], Or.inl rfl⟩

/-- After the initial command a connection is closed, or handed over. -/
theorem Conn.next_initial (reader : SocketReader) (ok : Bool) :
    ((Conn.initial reader).step ok).1 = .closed ∨
      ∃ stream, ((Conn.initial reader).step ok).1 = .handover stream := by
  cases hr : readMsg DaemonCommand.codec.decode reader with
  | error err => exact Or.inl (by simp only [Conn.step, hr])
  | ok p =>
    by_cases hrun : p.1 = .run
    · refine Or.inr ⟨p.2.intoInner, ?_⟩
      simp only [Conn.step, hr, hrun, ne_eq, not_true_eq_false, if_false]
    · refine Or.inl ?_
      simp only [Conn.step, hr, ne_eq, hrun, not_false_eq_true, if_true]

/-- The loop of a streaming client goes on, or ends. -/
theorem Conn.next_streaming (reader : SocketReader) (ok : Bool) :
    ((Conn.streaming reader).step ok).1 = .closed ∨
      ∃ reader', ((Conn.streaming reader).step ok).1 = .streaming reader' := by
  cases hr : readMsg DaemonCommand.codec.decode reader with
  | error err => exact Or.inl (by simp only [Conn.step, hr])
  | ok p => exact Or.inr ⟨p.2, by simp only [Conn.step, hr]⟩

/-- **A step of the reading thread** keeps the views in agreement, and the other view allows it,
unless the stream has ended and the client is still there. -/
theorem Conn.Linked.notice {c c' : Conn} {k : Connection} (h : c.Linked k) {ok : Bool}
    (hc' : c' = (c.step ok).1 ∨ c' = .closed ∧ (c.step ok).2 ≠ none) :
    (c.notice c' = none ∧ c'.Linked k) ∨
    ∃ m, c.notice c' = some m ∧ (∀ k', k.step m = some k' → c'.Linked k') ∧
      ((m = .readerExit true → k.client ≠ .reading) → ∃ k', k.step m = some k') := by
  -- The connection is given up before its client is served.
  have hgive : k.writer = .initial → c' = .closed → (∀ k', k.step (.command false) = some k' →
      c'.Linked k') ∧ ∃ k', k.step (.command false) = some k' := by
    rintro hw rfl
    have hstep : k.step (.command false) = some { k with writer := .closing, clone := false } := by
      simp [Connection.step, hw]
    refine ⟨fun k' hk' => ?_, _, hstep⟩
    obtain rfl := Option.some.inj (hstep.symm.trans hk')
    exact ⟨by simp, rfl⟩
  cases c with
  | opening stream =>
    obtain rfl : c' = if ok then .initial (.new stream) else .closed := by
      rcases hc' with hc' | ⟨-, hne⟩
      · exact hc'
      · exact absurd rfl hne
    cases ok with
    | true => exact Or.inl ⟨rfl, h⟩
    | false =>
      obtain ⟨hlinked, henabled⟩ := hgive h.1 rfl
      exact Or.inr ⟨_, rfl, hlinked, fun _ => henabled⟩
  | initial reader =>
    have hnext : c' = .closed ∨ ∃ stream, c' = .handover stream := by
      rcases hc' with rfl | ⟨rfl, -⟩
      · exact Conn.next_initial reader ok
      · exact Or.inl rfl
    rcases hnext with rfl | ⟨stream, rfl⟩
    · obtain ⟨hlinked, henabled⟩ := hgive h.1 rfl
      exact Or.inr ⟨_, rfl, hlinked, fun _ => henabled⟩
    · exact Or.inl ⟨rfl, h⟩
  | handover stream =>
    obtain rfl : c' = if ok then .streaming (.new stream) else .closed := by
      rcases hc' with hc' | ⟨-, hne⟩
      · exact hc'
      · exact absurd rfl hne
    cases ok with
    | true =>
      have hstep : k.step (.command true) = some { k with writer := .arming } := by
        simp [Connection.step, h.1]
      refine Or.inr ⟨_, rfl, fun k' hk' => ?_, fun _ => ⟨_, hstep⟩⟩
      obtain rfl := Option.some.inj (hstep.symm.trans hk')
      exact ⟨by simp, h.2⟩
    | false =>
      obtain ⟨hlinked, henabled⟩ := hgive h.1 rfl
      exact Or.inr ⟨_, rfl, hlinked, fun _ => henabled⟩
  | streaming reader =>
    have hnext : c' = .closed ∨ ∃ reader', c' = .streaming reader' := by
      rcases hc' with rfl | ⟨rfl, -⟩
      · exact Conn.next_streaming reader ok
      · exact Or.inl rfl
    rcases hnext with rfl | ⟨reader', rfl⟩
    · have hstep : ∀ eof, k.step (.readerExit eof) =
          if eof → k.client ≠ .reading then some { k with clone := false } else none := by
        intro eof
        simp [Connection.step, h.1, h.2]
      refine Or.inr ⟨_, rfl, fun k' hk' => ?_, fun heof => ⟨_, (hstep _).trans (if_pos ?_)⟩⟩
      · rw [hstep] at hk'
        obtain ⟨-, hk'⟩ := Option.ite_none_right_eq_some.mp hk'
        obtain rfl := Option.some.inj hk'
        exact ⟨h.1, rfl⟩
      · exact fun htrue => heof (by rw [htrue])
    · exact Or.inl ⟨rfl, h⟩
  | closed =>
    obtain rfl : c' = .closed := by
      rcases hc' with rfl | ⟨rfl, -⟩ <;> rfl
    exact Or.inl ⟨rfl, h⟩

/-! ### Runs of the service -/

/-- The snapshots that `update_streams` hands out in a run. -/
def handedOut (ls : List FanoutStep) : List (List UInt8) :=
  ls.filterMap fun l =>
    match l with
    | .broadcast bytes => some bytes
    | _ => none

theorem handedOut_concat (ls : List FanoutStep) (l : FanoutStep) :
    handedOut (ls ++ [l]) = handedOut ls ++ handedOut [l] := List.filterMap_append

/-- The frame of a snapshot. -/
def SnapshotData.frame (snap : SnapshotData) : List UInt8 := Procnet.frame (codec.encode snap)

/-- **The service is a run of each of its parts**, and what has been built is what has been handed
out, but for the last snapshot, perhaps. -/
structure Composed (e : Endian) (s : Service) (hist : List SnapshotData) : Prop where
  daemon : ∃ ls, exec (Daemon.step e) .new ls = some s.daemon
  fanout : ∃ ls, exec Fanout.step .new ls = some s.fanout ∧
    handedOut ls ++ s.shared.toList = hist.map SnapshotData.frame
  sends : ∀ snap ∈ hist, Daemon.Sends e snap
  linked : ∀ i : ℕ, Option.Rel (fun c k => Conn.Linked k c) s.daemon.conns[i]? s.fanout.conns[i]?
  /-- Nothing else is being handed out when a snapshot is about to be. -/
  ready : s.shared.isSome → ∃ senders, s.fanout.senders = .unlocked senders

/-- Only `update_streams` holds the lock of the list of senders for more than a step. -/
theorem Fanout.unlocked_step {s s' : Fanout} {l : FanoutStep} (hl : handedOut [l] = [])
    (h : s.step l = some s') (hs : ∃ senders, s.senders = .unlocked senders) :
    ∃ senders, s'.senders = .unlocked senders := by
  obtain ⟨senders, hs⟩ := hs
  cases l with
  | broadcast bytes => cases hl
  | accept i =>
    obtain ⟨-, h⟩ := Option.ite_none_right_eq_some.mp h
    obtain rfl := Option.some.inj h
    exact ⟨senders, hs⟩
  | conn i m =>
    obtain ⟨k, -, hk⟩ := Option.bind_eq_some_iff.mp h
    obtain ⟨k', -, rfl⟩ := Option.map_eq_some_iff.mp hk
    exact ⟨senders, hs⟩
  | join i ok =>
    simp only [step, hs] at h
    split at h
    case h_2 => cases h
    case h_1 =>
      obtain ⟨-, h⟩ := Option.ite_none_left_eq_some.mp h
      split at h
      · obtain rfl := Option.some.inj h
        exact ⟨_, rfl⟩
      · obtain rfl := Option.some.inj h
        exact ⟨_, rfl⟩
  | starve i =>
    obtain ⟨k, -, hk⟩ := Option.bind_eq_some_iff.mp h
    obtain ⟨-, hk⟩ := Option.ite_none_right_eq_some.mp hk
    obtain rfl := Option.some.inj hk
    exact ⟨senders, hs⟩
  | offer i =>
    simp only [step, hs] at h
    split at h
    case h_1 hretain => cases hretain
    case h_2 => cases h
  | finish =>
    simp only [step, hs] at h
    cases h

/-- How an iteration ends: it is the last one where its snapshot cannot be serialized. -/
theorem Daemon.exit_runOnce {e : Endian} {d : Daemon} (hp : d.poisoned = false)
    (events : List ProcStartEvent) (m : StatsMap) :
    (d.runOnce e (some events) m).exit =
      match (writeMsg SnapshotRef.serialize d.buf (d.snapshot e events m)).2 with
      | .ok () => d.exit
      | .error err => some (.error (.serialize err)) := by
  have hsnapshot : d.snapshot e events m =
      ⟨(d.sampledState e events m).interval, (d.sampledState e events m).tick,
        ((d.applied events).collectRows e m d.rows).2,
        (d.sampledState e events m).stats.deadProcs⟩ := rfl
  unfold runOnce
  rw [hp, if_neg (by decide), hsnapshot]
  simp only [writeMsg_eq, sampledState]
  split_ifs <;> rfl

/-- **What an iteration builds**, if it is not the last one: it is serialized to its frame. -/
theorem Service.built_cases {e : Endian} {s : Service} (hexit : s.daemon.exit = none)
    (drained : Option (List ProcStartEvent)) (m : StatsMap) :
    (s.built e (.tick drained m) = none ∧
      (s.daemon.runOnce e drained m).exit.isNone = false) ∨
    ∃ events, drained = some events ∧ s.daemon.poisoned = false ∧
      s.built e (.tick drained m) = some (s.daemon.snapshot e events m).toData ∧
      (s.daemon.runOnce e drained m).exit.isNone = true ∧
      (writeMsg SnapshotRef.serialize s.daemon.buf (s.daemon.snapshot e events m)).2 = .ok () ∧
      (s.daemon.runOnce e drained m).buf = (s.daemon.snapshot e events m).toData.frame := by
  cases hp : s.daemon.poisoned with
  | true =>
    refine Or.inl ⟨?_, by simp [Daemon.runOnce, hp]⟩
    cases drained with
    | none => rfl
    | some events => rw [built, hp, if_pos rfl]
  | false =>
    cases drained with
    | none => exact Or.inl ⟨rfl, by simp [Daemon.runOnce, hp]⟩
    | some events =>
      have hrun := Daemon.exit_runOnce (e := e) hp events m
      have hbuf := (Daemon.runOnce_some (e := e) hp events m).2
      cases hw : (writeMsg SnapshotRef.serialize s.daemon.buf (s.daemon.snapshot e events m)).2 with
      | error err =>
        rw [hw] at hrun
        have hlast : (s.daemon.runOnce e (some events) m).exit.isNone = false := by rw [hrun]; rfl
        refine Or.inl ⟨?_, hlast⟩
        rw [built, hp, if_neg (by decide), hlast, if_neg (by decide)]
      | ok u =>
        rw [hw, hexit] at hrun
        have hnext : (s.daemon.runOnce e (some events) m).exit.isNone = true := by rw [hrun]; rfl
        refine Or.inr ⟨events, rfl, rfl, ?_, hnext, hw, ?_⟩
        · rw [built, hp, if_neg (by decide), hnext, if_pos rfl]
        · rw [hbuf, (writeMsg_ok hw).2, SnapshotRef.serialize_eq]
          rfl

namespace Composed

variable {e : Endian} {s s' : Service} {hist : List SnapshotData}

theorem new (e : Endian) : Composed e .new [] where
  daemon := ⟨[], rfl⟩
  fanout := ⟨[], rfl, rfl⟩
  sends := by simp
  linked := fun _ => .none
  ready := by simp [Service.new]

theorem length_eq (h : Composed e s hist) : s.daemon.conns.length = s.fanout.conns.length := by
  have hiff : ∀ i, s.daemon.conns.length ≤ i ↔ s.fanout.conns.length ≤ i := by
    intro i
    have hrel := h.linked i
    rw [← List.getElem?_eq_none_iff, ← List.getElem?_eq_none_iff]
    generalize s.daemon.conns[i]? = c at hrel ⊢
    generalize s.fanout.conns[i]? = k at hrel ⊢
    cases hrel <;> simp
  exact Nat.le_antisymm ((hiff _).mpr (Nat.le_refl _)) ((hiff _).mp (Nat.le_refl _))

/-- The parts have gone on. -/
theorem step_daemon (h : Composed e s hist) {l : Step} {daemon : Daemon}
    (hs : s.daemon.step e l = some daemon) : ∃ ls, exec (Daemon.step e) .new ls = some daemon := by
  obtain ⟨ls, hls⟩ := h.daemon
  exact ⟨ls ++ [l], exec_append_eq_some.mpr ⟨_, hls, (exec_singleton _ _).trans hs⟩⟩

theorem step_fanout (h : Composed e s hist) {l : FanoutStep} {fanout : Fanout}
    (hs : s.fanout.step l = some fanout) :
    ∃ ls, exec Fanout.step .new (ls ++ [l]) = some fanout ∧
      handedOut ls ++ s.shared.toList = hist.map SnapshotData.frame := by
  obtain ⟨ls, hls, hout⟩ := h.fanout
  exact ⟨ls, exec_append_eq_some.mpr ⟨_, hls, (exec_singleton _ _).trans hs⟩, hout⟩

/-- A step that hands out nothing. -/
theorem step_quiet (h : Composed e s hist) {l : FanoutStep} {fanout : Fanout}
    (hs : s.fanout.step l = some fanout) (hl : handedOut [l] = []) :
    ∃ ls, exec Fanout.step .new ls = some fanout ∧
      handedOut ls ++ s.shared.toList = hist.map SnapshotData.frame := by
  obtain ⟨ls, hls, hout⟩ := h.step_fanout hs
  exact ⟨_, hls, by rwa [handedOut_concat, hl, List.append_nil]⟩

theorem accept (h : Composed e s hist) {stream : Source} {daemon : Daemon} {fanout : Fanout}
    (hd : s.daemon.step e (.accept stream) = some daemon)
    (hf : s.fanout.step (.accept s.fanout.conns.length) = some fanout) :
    Composed e { s with daemon, fanout } hist := by
  have hdaemon : daemon.conns = s.daemon.conns ++ [.opening stream] := by
    rcases Daemon.step_cases hd with ⟨_, hl, rfl⟩ | ⟨_, _, _, hl, -⟩ | ⟨_, _, hl, -⟩ | ⟨hl, -⟩
    · cases hl
      rfl
    · cases hl
    · cases hl
    · cases hl
  have hfanout : fanout.conns = s.fanout.conns ++ [.new] := by
    simp only [Fanout.step, if_true] at hf
    obtain rfl := Option.some.inj hf
    rfl
  refine ⟨h.step_daemon hd, h.step_quiet hf rfl, h.sends, fun i => ?_,
    fun hshared => Fanout.unlocked_step rfl hf (h.ready hshared)⟩
  show Option.Rel _ daemon.conns[i]? fanout.conns[i]?
  rw [hdaemon, hfanout]
  rcases Nat.lt_or_ge i s.daemon.conns.length with hi | hi
  · rw [List.getElem?_append_left hi, List.getElem?_append_left (h.length_eq ▸ hi)]
    exact h.linked i
  · rw [List.getElem?_append_right hi, List.getElem?_append_right (h.length_eq ▸ hi), h.length_eq]
    cases i - s.fanout.conns.length with
    | zero => exact .some ⟨rfl, rfl⟩
    | succ k => exact .none

/-- **The reading thread makes a step**, and the other view notices it. -/
theorem reader (h : Composed e s hist) {i : ℕ} {ok : Bool} {daemon : Daemon}
    (hd : s.daemon.step e (.client i ok) = some daemon) :
    ∃ c c' k, s.daemon.conns[i]? = some c ∧ daemon.conns[i]? = some c' ∧
      s.fanout.conns[i]? = some k ∧ daemon.conns = s.daemon.conns.set i c' ∧
      ((c.notice c' = none ∧ c'.Linked k) ∨
        ∃ m, c.notice c' = some m ∧ (∀ k', k.step m = some k' → c'.Linked k') ∧
          ((m = .readerExit true → k.client ≠ .reading) → ∃ k', k.step m = some k')) := by
  rcases Daemon.step_cases hd with ⟨_, hl, -⟩ | ⟨j, ok', c, hl, hc, rfl⟩ | ⟨_, _, hl, -⟩ | ⟨hl, -⟩
  · cases hl
  · cases hl
    obtain ⟨hlt, -⟩ := List.getElem?_eq_some_iff.mp hc
    obtain ⟨c', hconns, hc'⟩ := s.daemon.conns_clientStep i ok c
    have hlinked := h.linked i
    rw [hc] at hlinked
    cases hk : s.fanout.conns[i]? with
    | none =>
      rw [hk] at hlinked
      cases hlinked
    | some k =>
      rw [hk] at hlinked
      cases hlinked with
      | some hlinked =>
        exact ⟨c, c', k, hc, by rw [hconns, List.getElem?_set_self hlt], rfl, hconns,
          hlinked.notice hc'⟩
  · cases hl
  · cases hl

/-- The connection of the reading thread has changed, and the other view with it. -/
theorem set (h : Composed e s hist) {i : ℕ} {c' : Conn} {k' : Connection} {daemon : Daemon}
    {fanout : Fanout} (hd : daemon.conns = s.daemon.conns.set i c')
    (hf : fanout.conns = s.fanout.conns.set i k') (hlinked : c'.Linked k') (j : ℕ) :
    Option.Rel (fun c k => Conn.Linked k c) daemon.conns[j]? fanout.conns[j]? := by
  rw [hd, hf]
  rcases eq_or_ne j i with rfl | hj
  · have hrel := h.linked j
    rw [List.getElem?_set_self', List.getElem?_set_self']
    generalize s.daemon.conns[j]? = c at hrel ⊢
    generalize s.fanout.conns[j]? = k at hrel ⊢
    cases hrel with
    | none => exact .none
    | some => exact .some hlinked
  · rw [List.getElem?_set_ne hj.symm, List.getElem?_set_ne hj.symm]
    exact h.linked j

theorem conns_of_step_conn {fanout fanout' : Fanout} {i : ℕ} {m : ConnStep} {k : Connection}
    (hk : fanout.conns[i]? = some k) (hs : fanout.step (.conn i m) = some fanout') :
    ∃ k', k.step m = some k' ∧ fanout'.conns = fanout.conns.set i k' := by
  simp only [Fanout.step, hk, Option.bind_some] at hs
  obtain ⟨k', hk', rfl⟩ := Option.map_eq_some_iff.mp hs
  exact ⟨k', hk', rfl⟩

/-- **An iteration** builds a snapshot, serializes it, and is about to hand it out; or it is the
last one. -/
theorem tick (h : Composed e s hist) {drained : Option (List ProcStartEvent)} {m : StatsMap}
    {daemon : Daemon} (hexit : s.daemon.exit = none) (hwaits : s.waits = true)
    (hd : s.daemon.step e (.tick drained m) = some daemon) :
    Composed e { s with daemon, shared := if daemon.exit.isNone then some daemon.buf else none }
      (hist ++ (s.built e (.tick drained m)).toList) := by
  obtain rfl : daemon = s.daemon.runOnce e drained m := by
    rcases Daemon.step_cases hd with ⟨_, hl, -⟩ | ⟨_, _, _, hl, -⟩ | ⟨_, _, hl, rfl⟩ | ⟨hl, -⟩
    · cases hl
    · cases hl
    · cases hl
      rfl
    · cases hl
  obtain ⟨hshared, hready⟩ : s.shared = none ∧ ∃ senders, s.fanout.senders = .unlocked senders := by
    unfold Service.waits at hwaits
    split at hwaits
    case h_1 senders hshared hsenders => exact ⟨hshared, senders, hsenders⟩
    case h_2 => cases hwaits
  obtain ⟨ls, hls, hout⟩ := h.fanout
  rw [hshared, Option.toList_none, List.append_nil] at hout
  have hlinked : ∀ i : ℕ, Option.Rel (fun c k => Conn.Linked k c)
      (s.daemon.runOnce e drained m).conns[i]? s.fanout.conns[i]? := by
    intro i
    rw [Daemon.conns_runOnce]
    exact h.linked i
  rcases s.built_cases (e := e) hexit drained m with ⟨hnone, hlast⟩ |
    ⟨events, rfl, hp, hbuilt, hnext, hw, hbuf⟩
  · rw [hnone, hlast, if_neg (by decide), Option.toList_none, List.append_nil]
    refine ⟨h.step_daemon hd, ⟨ls, hls, ?_⟩, h.sends, hlinked, fun _ => hready⟩
    rw [Option.toList_none, List.append_nil]
    exact hout
  · rw [hbuilt, hnext, if_pos rfl, Option.toList_some]
    refine ⟨h.step_daemon hd, ⟨ls, hls, ?_⟩, ?_, hlinked, fun _ => hready⟩
    · rw [hbuf, hout, List.map_append]
      rfl
    · intro snap hsnap
      rcases List.mem_append.mp hsnap with hsnap | hsnap
      · exact h.sends snap hsnap
      · obtain rfl := List.mem_singleton.mp hsnap
        obtain ⟨ls', hls'⟩ := h.daemon
        exact ⟨ls', s.daemon, events, m, hls', hexit, hp, hw, rfl⟩

/-- **Every step of the service** is one of its parts. -/
theorem step (h : Composed e s hist) {l : ServiceStep} (hs : s.step e l = some s') :
    Composed e s' (hist ++ (s.built e l).toList) := by
  obtain ⟨hexit, ⟨stream, daemon, fanout, rfl, hd, hf, rfl⟩ | ⟨i, ok, daemon, rfl, hd, hcases⟩ |
    ⟨drained, m, daemon, rfl, hwaits, hd, rfl⟩ | ⟨bytes, fanout, rfl, hshared, hf, rfl⟩ |
    ⟨m, fanout, rfl, hown, hf, rfl⟩ | ⟨daemon, rfl, hd, rfl⟩⟩ := Service.step_cases hs
  · rw [Service.built, Option.toList_none, List.append_nil]
    exact h.accept hd hf
  · rw [Service.built, Option.toList_none, List.append_nil]
    obtain ⟨c, c', k, hc, hc', hk, hconns, hnotice⟩ := h.reader hd
    rw [hc, hc', Option.bind_some, Option.bind_some] at hcases
    rcases hcases with ⟨hnone, rfl⟩ | ⟨m, fanout, hm, hf, rfl⟩
    · rcases hnotice with ⟨-, hlinked⟩ | ⟨m, hm, -⟩
      · refine ⟨h.step_daemon hd, h.fanout, h.sends, h.set hconns ?_ hlinked, h.ready⟩
        obtain ⟨hlt, rfl⟩ := List.getElem?_eq_some_iff.mp hk
        exact (List.set_getElem_self hlt).symm
      · exact absurd (hm.symm.trans hnone) (by simp)
    · obtain ⟨k', hk', hf'⟩ := conns_of_step_conn hk hf
      rcases hnotice with ⟨hnone, -⟩ | ⟨m', hm', hlinked, -⟩
      · exact absurd (hm.symm.trans hnone) (by simp)
      · obtain rfl := Option.some.inj (hm.symm.trans hm')
        exact ⟨h.step_daemon hd, h.step_quiet hf rfl, h.sends, h.set hconns hf' (hlinked k' hk'),
          fun hshared => Fanout.unlocked_step rfl hf (h.ready hshared)⟩
  · exact h.tick hexit hwaits hd
  · rw [Service.built, Option.toList_none, List.append_nil]
    have hconns : fanout.conns = s.fanout.conns := by
      simp only [Fanout.step] at hf
      split at hf
      · obtain rfl := Option.some.inj hf
        rfl
      · cases hf
    obtain ⟨ls, hls, hout⟩ := h.step_fanout hf
    refine ⟨h.daemon, ⟨_, hls, ?_⟩, h.sends, by rw [hconns]; exact h.linked, by simp⟩
    rw [hshared, Option.toList_some] at hout
    rw [handedOut_concat, Option.toList_none, List.append_nil]
    exact hout
  · rw [Service.built, Option.toList_none, List.append_nil]
    have hquiet : handedOut [m] = [] := by
      cases m with
      | broadcast bytes => cases hown
      | accept | conn | join | starve | offer | finish => rfl
    refine ⟨h.daemon, h.step_quiet hf hquiet, h.sends, fun i => ?_,
      fun hshared => Fanout.unlocked_step hquiet hf (h.ready hshared)⟩
    show Option.Rel _ s.daemon.conns[i]? fanout.conns[i]?
    have hrel := h.linked i
    have hshared := Fanout.shared_of_own hown hf i
    generalize s.daemon.conns[i]? = c at hrel ⊢
    generalize s.fanout.conns[i]? = k at hrel hshared
    generalize fanout.conns[i]? = k' at hshared ⊢
    cases hrel with
    | none =>
      cases hshared
      exact .none
    | some hlinked =>
      cases hshared with
      | some hsame => exact .some (hlinked.congr hsame.1 hsame.2)
  · rw [Service.built, Option.toList_none, List.append_nil]
    refine ⟨h.step_daemon hd, h.fanout, h.sends, fun i => ?_, h.ready⟩
    rcases Daemon.step_cases hd with ⟨_, hl, -⟩ | ⟨_, _, _, hl, -⟩ | ⟨_, _, hl, -⟩ | ⟨-, rfl⟩
    · cases hl
    · cases hl
    · cases hl
    · exact h.linked i

theorem exec {ls : List ServiceStep} (h : Lib.exec (Service.step e) .new ls = some s) :
    Composed e s (Service.builtOf e ls) :=
  exec_observe (C := fun _ _ => True) (R := Composed e) (fun _ _ _ _ _ hc hs => hc.step hs)
    (meets_of_forall (fun _ _ => trivial) _ _) (new e) h

end Composed

/-! ### A service with one client -/

/-- A client is served: its first snapshot is written in two pieces, and the second one is cut. -/
def servedRun : List ServiceStep :=
  [.accept [.bytes 4 [0, 0, 0, 0, 0]], .reader 0 true, .reader 0 true, .reader 0 true,
    .fan (.conn 0 (.arm true)), .fan (.join 0 true), .tick (some []) (firstPids 0), .broadcast,
    .fan (.offer 0), .fan .finish, .fan (.conn 0 .recv), .fan (.conn 0 (.write 20)),
    .fan (.conn 0 (.write 14)), .tick (some []) (firstPids 0), .broadcast, .fan (.offer 0),
    .fan .finish, .fan (.conn 0 .recv), .fan (.conn 0 (.write 10))]

/-- **The two views of a connection never disagree.** In every run of the service each part does
what it does on its own; every connection is linked, so that none of its descriptors is held when
both of its threads are at their ends; and what the threads that read can do in `Daemon` they can
do in the service, but for the end of a stream, which is found only when the client has closed its
end. -/
theorem service_threads_agree (e : Endian) {ls : List ServiceStep} {s : Service}
    (h : exec (Service.step e) .new ls = some s) :
    (∃ ls, exec (Daemon.step e) .new ls = some s.daemon) ∧
    (∃ ls, exec Fanout.step .new ls = some s.fanout) ∧
    (∀ i : ℕ, Option.Rel (fun c k => Conn.Linked k c) s.daemon.conns[i]? s.fanout.conns[i]?) ∧
    (∀ (i : ℕ) (k : Connection), s.daemon.conns[i]? = some .closed →
      s.fanout.conns[i]? = some k → k.writer = .ended → k.descriptors = 0) ∧
    (∀ stream daemon, s.daemon.step e (.accept stream) = some daemon →
      ∃ fanout, s.step e (.accept stream) = some { s with daemon, fanout }) ∧
    ∀ i ok daemon, s.daemon.step e (.client i ok) = some daemon →
      (∀ reader k, s.daemon.conns[i]? = some (.streaming reader) → s.fanout.conns[i]? = some k →
        readMsg DaemonCommand.codec.decode reader = .error .eof → k.client ≠ .reading) →
      ∃ fanout, s.step e (.reader i ok) = some { s with daemon, fanout } := by
  have hs := Composed.exec h
  obtain ⟨fls, hfls, -⟩ := hs.fanout
  refine ⟨hs.daemon, ⟨fls, hfls⟩, hs.linked, fun i k hc hk hended => ?_, fun stream daemon hd => ?_,
    fun i ok daemon hd heof => ?_⟩
  · have hrel := hs.linked i
    rw [hc, hk] at hrel
    cases hrel with
    | some hlinked => simp [Connection.descriptors, hended, hlinked.2]
  · have hexit := Daemon.exit_eq_none_of_step hd
    refine ⟨{ s.fanout with conns := s.fanout.conns ++ [.new] }, ?_⟩
    simp [Service.step, hexit, hd, Fanout.step]
  · have hexit := Daemon.exit_eq_none_of_step hd
    obtain ⟨c, c', k, hc, hc', hk, -, hnotice⟩ := hs.reader hd
    have hbind : ((s.daemon.conns[i]?).bind fun c => (daemon.conns[i]?).bind c.notice) =
        c.notice c' := by
      rw [hc, hc']
      rfl
    rcases hnotice with ⟨hnone, -⟩ | ⟨m, hm, -, henabled⟩
    · refine ⟨s.fanout, ?_⟩
      simp only [Service.step, hexit, Option.isSome_none, Bool.false_eq_true, if_false, hd,
        Option.bind_some, hbind, hnone]
    · have hgone : m = .readerExit true → k.client ≠ .reading := by
        rintro rfl
        cases c with
        | streaming reader =>
          cases c' with
          | closed =>
            have hmatch :
                (readMsg DaemonCommand.codec.decode reader matches .error .eof) = true := by
              simpa [Conn.notice] using hm
            refine heof reader k hc hk ?_
            split at hmatch
            · assumption
            · cases hmatch
          | opening | initial | handover | streaming => cases hm
        | opening stream => cases c' <;> cases hm
        | initial reader => cases c' <;> cases hm
        | handover stream => cases c' <;> cases hm
        | closed => cases c' <;> cases hm
      obtain ⟨k', hk'⟩ := henabled hgone
      refine ⟨{ s.fanout with conns := s.fanout.conns.set i k' }, ?_⟩
      simp only [Service.step, hexit, Option.isSome_none, Bool.false_eq_true, if_false, hd,
        Option.bind_some, hbind, hm, Fanout.step, hk, hk', Option.map_some]

theorem service_threads_agree_served :
    ∃ s, exec (Service.step .little) .new servedRun = some s ∧
      ∃ fanout, s.step .little (.accept []) = some { s with
        daemon := { s.daemon with conns := s.daemon.conns ++ [.opening []] }, fanout } := by
  obtain ⟨s, hs, hp⟩ := exists_exec_of_any (Service.step .little) .new servedRun
    (fun s => s.daemon.exit = none) (by decide +kernel)
  have hexit : s.daemon.exit = none := of_decide_eq_true hp
  obtain ⟨-, -, -, -, haccept, -⟩ := service_threads_agree .little hs
  exact ⟨s, hs, haccept [] _ (by simp [Daemon.step, hexit])⟩

/-! ### The main loop goes on -/

/-- The steps that the main loop makes on its own. -/
def ServiceStep.ofMainLoop : ServiceStep → Bool
  | .broadcast | .fan (.offer _) | .fan .finish => true
  | _ => false

namespace Service

variable {e : Endian} {s : Service}

/-- The other steps of the daemon are those of one part. -/
theorem exec_fan (hexit : s.daemon.exit = none) {ls : List FanoutStep}
    (hown : ∀ l ∈ ls, l.own = true) {fanout : Fanout}
    (h : exec Fanout.step s.fanout ls = some fanout) :
    exec (step e) s (ls.map .fan) = some { s with fanout } := by
  induction ls generalizing s with
  | nil =>
    obtain rfl : s.fanout = fanout := by simpa using h
    rfl
  | cons l ls ih =>
    obtain ⟨fanout', hl, hrest⟩ := exec_cons_eq_some.mp h
    rw [List.map_cons]
    refine exec_cons_eq_some.mpr ⟨{ s with fanout := fanout' }, ?_,
      ih hexit (fun m hm => hown m (List.mem_cons_of_mem _ hm)) hrest⟩
    simp only [step, hexit, Option.isSome_none, Bool.false_eq_true, if_false,
      hown l (List.mem_cons_self ..), if_true, hl, Option.map_some]

/-- **`update_streams` comes to its end**, on its own. -/
theorem exec_offers (hexit : s.daemon.exit = none) (hshared : s.shared = none)
    {fls : List FanoutStep} (hreach : exec Fanout.step .new fls = some s.fanout)
    {bytes : List UInt8} {kept todo : List ℕ} (hs : s.fanout.senders = .retain bytes kept todo) :
    ∃ ms : List ServiceStep, (∀ l ∈ ms, l.ofMainLoop = true) ∧
      ∃ t, exec (step e) s ms = some t ∧ t.daemon = s.daemon ∧ t.waits = true := by
  have hconns : ∀ j ∈ todo, ∃ c, s.fanout.conns[j]? = some c := by
    intro j hj
    refine Fanout.exists_conn_of_mem hreach ?_
    rw [hs]
    exact List.mem_append_right _ hj
  obtain ⟨fanout, hrun⟩ := Option.isSome_iff_exists.mp (Fanout.isSome_exec_offers hs hconns)
  have hsteps : ∀ l ∈ todo.map FanoutStep.offer ++ [.finish],
      l.own = true ∧ (ServiceStep.fan l).ofMainLoop = true := by
    intro l hl
    rcases List.mem_append.mp hl with hl | hl
    · obtain ⟨j, -, rfl⟩ := List.mem_map.mp hl
      exact ⟨rfl, rfl⟩
    · obtain rfl := List.mem_singleton.mp hl
      exact ⟨rfl, rfl⟩
  refine ⟨_, ?_, _, exec_fan hexit (fun l hl => (hsteps l hl).1) hrun, rfl, ?_⟩
  · intro l hl
    obtain ⟨f, hf, rfl⟩ := List.mem_map.mp hl
    exact (hsteps f hf).2
  · obtain ⟨before, -, hlast⟩ := exec_append_eq_some.mp hrun
    rw [exec_singleton] at hlast
    simp only [Fanout.step] at hlast
    split at hlast
    · obtain rfl := Option.some.inj hlast
      rw [waits, hshared]
    · cases hlast

/-- The main loop comes back to its wait, from wherever it is. -/
theorem exec_waits {hist : List SnapshotData} (hs : Composed e s hist)
    (hexit : s.daemon.exit = none) :
    ∃ ms : List ServiceStep, (∀ l ∈ ms, l.ofMainLoop = true) ∧
      ∃ t, exec (step e) s ms = some t ∧ t.daemon = s.daemon ∧ t.waits = true := by
  obtain ⟨fls, hfls, -⟩ := hs.fanout
  cases hshared : s.shared with
  | none =>
    cases hsenders : s.fanout.senders with
    | unlocked senders =>
      refine ⟨[], by simp, s, rfl, rfl, ?_⟩
      rw [waits, hshared, hsenders]
    | retain bytes kept todo => exact exec_offers hexit hshared hfls hsenders
  | some bytes =>
    -- The snapshot is to be handed out first.
    obtain ⟨senders, hsenders⟩ := hs.ready (by rw [hshared]; rfl)
    obtain ⟨fanout, hfanout⟩ : ∃ fanout : Fanout,
        fanout = { s.fanout with senders := .retain bytes [] senders } := ⟨_, rfl⟩
    have hbroadcast : s.fanout.step (.broadcast bytes) = some fanout := by
      rw [Fanout.step, hsenders, hfanout]
    have hfirst : s.step e .broadcast = some { s with fanout, shared := none } := by
      simp only [step, hexit, Option.isSome_none, Bool.false_eq_true, if_false, hshared,
        Option.bind_some, hbroadcast, Option.map_some]
    have hreach : exec Fanout.step .new (fls ++ [.broadcast bytes]) = some fanout :=
      exec_append_eq_some.mpr ⟨_, hfls, (exec_singleton _ _).trans hbroadcast⟩
    obtain ⟨ms, hms, t, ht, hdaemon, hwaits⟩ := exec_offers (e := e)
      (s := { s with fanout, shared := none }) hexit rfl hreach (by rw [hfanout])
    refine ⟨.broadcast :: ms, ?_, t, exec_cons_eq_some.mpr ⟨_, hfirst, ht⟩, hdaemon, hwaits⟩
    intro l hl
    rcases List.mem_cons.mp hl with rfl | hl
    · rfl
    · exact hms l hl

end Service

/-- **No client keeps the main loop from its next iteration**: in every state of every run of the
service in which the main loop has not ended, wherever it is in handing out a snapshot and whatever
the threads of the clients do or do not do, it comes to its next iteration by its own steps. -/
theorem iteration_completes (e : Endian) {ls : List ServiceStep} {s : Service}
    (h : exec (Service.step e) .new ls = some s) (hexit : s.daemon.exit = none)
    (drained : Option (List ProcStartEvent)) (m : StatsMap) :
    ∃ ms : List ServiceStep, (∀ l ∈ ms, l.ofMainLoop = true) ∧
      ∃ s', exec (Service.step e) s (ms ++ [.tick drained m]) = some s' ∧
        s'.daemon = s.daemon.runOnce e drained m := by
  obtain ⟨ms, hms, t, ht, hdaemon, hwaits⟩ := Service.exec_waits (Composed.exec h) hexit
  have hrun : t.daemon.step e (.tick drained m) = some (s.daemon.runOnce e drained m) := by
    rw [hdaemon, Daemon.step, hexit]
    rfl
  have htick : t.step e (.tick drained m) = some { t with
      daemon := s.daemon.runOnce e drained m
      shared := if (s.daemon.runOnce e drained m).exit.isNone then
        some (s.daemon.runOnce e drained m).buf else none } := by
    simp only [Service.step, hdaemon, hexit, Option.isSome_none, Bool.false_eq_true, if_false,
      hwaits, if_true]
    rw [← hdaemon, hrun, hdaemon]
    rfl
  exact ⟨ms, hms, _, exec_append_eq_some.mpr ⟨t, ht, (exec_singleton _ _).trans htick⟩, rfl⟩

/-- The run stops in the middle of handing out the first snapshot. -/
theorem iteration_completes_served :
    ∃ s ms s', exec (Service.step .little) .new (servedRun.take 8) = some s ∧
      exec (Service.step .little) s (ms ++ [.tick (some []) (firstPids 0)]) = some s' ∧
      s'.daemon.state.tick = 2 := by
  obtain ⟨s, hs, hp⟩ := exists_exec_of_any (Service.step .little) .new (servedRun.take 8)
    (fun s => s.daemon.exit = none ∧ s.waits = false ∧
      (s.daemon.runOnce .little (some []) (firstPids 0)).state.tick = 2) (by decide +kernel)
  obtain ⟨hexit, -, htick⟩ := of_decide_eq_true hp
  obtain ⟨ms, -, s', hs', hdaemon⟩ := iteration_completes .little hs hexit (some []) (firstPids 0)
  exact ⟨s, ms, s', hs, hs', by rw [hdaemon]; exact htick⟩

end Procnet
