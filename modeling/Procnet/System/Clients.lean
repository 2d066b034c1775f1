import Procnet.Daemon.Control
import Procnet.Tui.Commands

/-!
# The daemon and the clients of the repository

The daemon panics with its lock held when a streaming client sends `run` again. The clients of the
repository do not, but what the daemon reads is not simply what they have sent: a write can be torn,
the socket delivers the bytes in any pieces and may fail, and the reader that is dropped at the
hand-over takes some of them with it. `Conn.KeepsUp` says how far the thread of a connection is in
the writes of its client, which may have gone on since.

* `own_commands_in_order` – the daemon carries out commands that the client has written as a whole,
  in their order and each of them once, whatever the other clients do.
* `own_clients_never_poison` – it is never poisoned by such clients.
* `cli_command_exact` – a command of the command line is carried out exactly.
-/

namespace Procnet

open Lib

namespace Conn

variable {writes : List CommandWrite} {done : List DaemonCommand} {c : Conn}

/-- **How far the thread is in the writes of its client**, when it has passed on some commands. -/
def KeepsUp (writes : List CommandWrite) (done : List DaemonCommand) : Conn → Prop
  | opening stream => done = [] ∧ stream.bytes <+: wireOf writes
  | initial reader => done = [] ∧ reader.pending <+: wireOf writes
  | handover stream => done = [] ∧ ∃ pre post, writes = pre ++ post ∧ Steps post ∧
      stream.bytes <:+: wireOf post
  | streaming reader => ∃ pre post, writes = pre ++ post ∧ done.Sublist (wholeOf pre) ∧
      Steps post ∧ reader.pending <:+: wireOf post
  | closed => done.Sublist (wholeOf writes)

/-- What has been passed on was written as a whole. -/
theorem KeepsUp.sublist (h : c.KeepsUp writes done) : done.Sublist (wholeOf writes) := by
  cases c with
  | opening stream => exact h.1 ▸ List.nil_sublist _
  | initial reader => exact h.1 ▸ List.nil_sublist _
  | handover stream => exact h.1 ▸ List.nil_sublist _
  | streaming reader =>
    obtain ⟨pre, post, rfl, hdone, -⟩ := h
    rw [wholeOf_append]
    exact hdone.trans (List.sublist_append_left _ _)
  | closed => exact h

/-- **The initial command** is the first one that the client has written. -/
theorem readMsg_initial {first : DaemonCommand} (hw : ClientWrites first writes)
    {reader reader' : SocketReader} {msg : DaemonCommand} (hp : reader.pending <+: wireOf writes)
    (hr : readMsg DaemonCommand.codec.decode reader = .ok (msg, reader')) :
    ∃ w rest, writes = w :: rest ∧ w.2 = w.1.frame ∧ msg = w.1 ∧ Steps rest ∧
      reader'.pending <+: wireOf rest := by
  rcases hw with rfl | ⟨bytes, rfl, htorn⟩ | ⟨rest, -, rfl, hrest⟩
  · exact absurd (List.prefix_nil.mp hp) (pending_ne_nil_of_readMsg hr)
  · have hbytes : wireOf [(first, bytes)] = bytes := by simp [wireOf]
    rw [hbytes] at hp
    have hframe : reader.pending <+: frame (DaemonCommand.codec.encode first) ++ [] := by
      rw [List.append_nil]
      exact hp.trans htorn
    obtain ⟨rfl, hpending⟩ := readMsg_delivered first.reads_encode hframe hr
    -- All of the frame has been there, and nothing after it.
    have hwhole : bytes = msg.frame ∧ reader'.pending = [] := by
      have hle := hp.length_le
      have hle' := htorn.length_le
      rw [hpending, List.length_append] at hle
      have hlen : (frame (DaemonCommand.codec.encode msg)).length = msg.frame.length := rfl
      refine ⟨htorn.eq_of_length (by omega), List.eq_nil_of_length_eq_zero (by omega)⟩
    exact ⟨(msg, bytes), [], rfl, hwhole.1, rfl, by simp [Steps], by simp [hwhole.2]⟩
  · rw [wireOf_cons] at hp
    obtain ⟨rfl, hpending⟩ := readMsg_delivered DaemonCommand.run.reads_encode hp hr
    rw [hpending] at hp
    exact ⟨_, rest, rfl, rfl, rfl, hrest, (List.prefix_append_right_inj _).mp hp⟩

/-- **A step of the thread keeps up**, and never passes `run` on. -/
theorem KeepsUp.step {first : DaemonCommand} (hw : ClientWrites first writes)
    (h : c.KeepsUp writes done) (ok : Bool) :
    (c.step ok).1.KeepsUp writes (done ++ (c.step ok).2.toList) ∧ (c.step ok).2 ≠ some .run := by
  cases c with
  | opening stream =>
    obtain ⟨rfl, hstream⟩ := h
    cases ok with
    | true => exact ⟨⟨rfl, hstream⟩, by simp [Conn.step]⟩
    | false => exact ⟨List.nil_sublist _, by simp [Conn.step]⟩
  | initial reader =>
    obtain ⟨rfl, hpending⟩ := h
    cases hr : readMsg DaemonCommand.codec.decode reader with
    | error err =>
      simp only [Conn.step, hr]
      exact ⟨List.nil_sublist _, by simp⟩
    | ok p =>
      obtain ⟨msg, reader'⟩ := p
      obtain ⟨w, rest, rfl, hwhole, rfl, hrest, hpending'⟩ := readMsg_initial hw hpending hr
      by_cases hrun : w.1 = .run
      · simp only [Conn.step, hr, hrun, ne_eq, not_true_eq_false, if_false]
        -- The bytes that the reader has buffered are lost.
        have hinner : reader'.intoInner.bytes <:+: wireOf rest :=
          (List.suffix_append reader'.buf _).isInfix.trans hpending'.isInfix
        exact ⟨⟨rfl, [w], rest, rfl, hrest, hinner⟩, by simp⟩
      · simp only [Conn.step, hr, ne_eq, hrun, not_false_eq_true, if_true]
        refine ⟨?_, by simpa using hrun⟩
        show [w.1].Sublist (wholeOf (w :: rest))
        rw [wholeOf_cons_of_whole hwhole]
        exact (List.nil_sublist _).cons_cons _
  | handover stream =>
    obtain ⟨rfl, pre, post, rfl, hpost, hstream⟩ := h
    cases ok with
    | true => exact ⟨⟨pre, post, rfl, List.nil_sublist _, hpost, hstream⟩, by simp [Conn.step]⟩
    | false => exact ⟨List.nil_sublist _, by simp [Conn.step]⟩
  | streaming reader =>
    have hsub := h.sublist
    obtain ⟨pre, post, rfl, hdone, hpost, hpending⟩ := h
    cases hr : readMsg DaemonCommand.codec.decode reader with
    | error err =>
      simp only [Conn.step, hr, Option.toList_none, List.append_nil]
      exact ⟨hsub, by simp⟩
    | ok p =>
      obtain ⟨msg, reader'⟩ := p
      obtain ⟨pre', w, post', rfl, hwhole, rfl, hpending'⟩ := readMsg_torn hpost hpending hr
      simp only [Conn.step, hr]
      constructor
      · refine ⟨pre ++ (pre' ++ [w]), post', by simp, ?_, fun v hv => ?_, hpending'⟩
        · rw [wholeOf_append, wholeOf_append, wholeOf_cons_of_whole hwhole]
          exact hdone.append (List.sublist_append_right _ _)
        · exact hpost v (List.mem_append_right _ (List.mem_cons_of_mem _ hv))
      · obtain ⟨hstep, -⟩ := hpost w (List.mem_append_right _ (List.mem_cons_self ..))
        rcases hstep with hstep | hstep <;> simp [hstep]
  | closed => exact ⟨by simpa [Conn.step] using h, by simp [Conn.step]⟩

end Conn

/-! ### The commands of a connection -/

/-- What a run of the daemon shows of its connections. -/
inductive ConnObs where
  | accepted (stream : Source) : ConnObs
  /-- The thread of a connection has passed a command on. -/
  | passed (i : ℕ) (command : DaemonCommand) : ConnObs
  deriving DecidableEq, Repr

namespace ConnObs

def accepted? : ConnObs → Option Source
  | accepted stream => some stream
  | passed .. => none

/-- The command that connection `i` has passed on. -/
def passedBy? (i : ℕ) : ConnObs → Option DaemonCommand
  | passed j command => if j = i then some command else none
  | accepted _ => none

end ConnObs

/-- The streams that have been accepted, in the order of their connections. -/
def streamsOf (hist : List ConnObs) : List Source := hist.filterMap ConnObs.accepted?

/-- The commands that connection `i` has passed to the shared state. -/
def passedBy (i : ℕ) (hist : List ConnObs) : List DaemonCommand :=
  hist.filterMap (ConnObs.passedBy? i)

/-- What a client of the repository may have written, and what of it the daemon gets. -/
def FromClient (stream : Source) (writes : List CommandWrite) : Prop :=
  ∃ command ks c, exec ClientProcess.step (.start command) ks = some c ∧
    writes = wroteOf (ClientProcess.history command ks) ∧ stream.bytes <+: c.written

theorem FromClient.shape {stream : Source} {writes : List CommandWrite}
    (h : FromClient stream writes) :
    ∃ first, ClientWrites first writes ∧ stream.bytes <+: wireOf writes := by
  obtain ⟨command, ks, c, hc, rfl, hbytes⟩ := h
  have hwrote := ClientProcess.wrote_exec hc
  exact ⟨_, hwrote.shape, hwrote.wire ▸ hbytes⟩

namespace Daemon

variable {e : Endian} {d d' : Daemon} {l : Step} {hist : List ConnObs}

/-- What a step shows of the connections. A thread that finds the lock poisoned passes nothing
on. -/
def connObs (d : Daemon) : Step → Option ConnObs
  | .accept stream => some (.accepted stream)
  | .client i ok =>
    if d.poisoned then none
    else (d.conns[i]?).bind fun c => (c.step ok).2.map (ConnObs.passed i)
  | .tick .. | .shutdown => none

/-- What a run shows of the connections. -/
def connHistory (e : Endian) (ls : List Step) : List ConnObs := observe (step e) connObs .new ls

/-- **Every connection keeps up with its client**, if that is one of the repository. -/
structure KeepsUp (d : Daemon) (hist : List ConnObs) : Prop where
  streams : (streamsOf hist).length = d.conns.length
  fresh : ∀ i ≥ d.conns.length, passedBy i hist = []
  conns : ∀ (i : ℕ) (stream : Source) (c : Conn) (first : DaemonCommand)
    (writes : List CommandWrite), (streamsOf hist)[i]? = some stream → d.conns[i]? = some c →
    ClientWrites first writes → stream.bytes <+: wireOf writes → c.KeepsUp writes (passedBy i hist)

/-- A connection, after one has been accepted, is an old one or the new one. -/
theorem conn_of_accept {stream stream' : Source} {i : ℕ} {c : Conn}
    (hlen : (streamsOf hist).length = d.conns.length)
    (hs : (streamsOf (hist ++ [.accepted stream]))[i]? = some stream')
    (hc : (d.conns ++ [.opening stream])[i]? = some c) :
    ((streamsOf hist)[i]? = some stream' ∧ d.conns[i]? = some c) ∨
      (d.conns.length ≤ i ∧ stream' = stream ∧ c = .opening stream) := by
  have hstreams : streamsOf (hist ++ [.accepted stream]) = streamsOf hist ++ [stream] := by
    simp [streamsOf, ConnObs.accepted?]
  rw [hstreams] at hs
  rcases Nat.lt_or_ge i d.conns.length with hi | hi
  · rw [List.getElem?_append_left (hlen ▸ hi)] at hs
    rw [List.getElem?_append_left hi] at hc
    exact Or.inl ⟨hs, hc⟩
  · rw [List.getElem?_append_right (hlen ▸ hi), hlen] at hs
    rw [List.getElem?_append_right hi] at hc
    cases hk : i - d.conns.length with
    | zero =>
      rw [hk] at hs hc
      exact Or.inr ⟨hi, (Option.some.inj hs).symm, (Option.some.inj hc).symm⟩
    | succ k => simp [hk] at hs

theorem passedBy_accepted (i : ℕ) (hist : List ConnObs) (stream : Source) :
    passedBy i (hist ++ [.accepted stream]) = passedBy i hist := by
  simp [passedBy, ConnObs.passedBy?]

theorem keepsUp_new : new.KeepsUp [] where
  streams := rfl
  fresh := fun _ _ => rfl
  conns := by simp [new]

/-- A step that leaves the connections alone. -/
theorem KeepsUp.quiet (h : d.KeepsUp hist) (hconns : d'.conns = d.conns) : d'.KeepsUp hist :=
  ⟨by rw [hconns]; exact h.streams, by rw [hconns]; exact h.fresh, by rw [hconns]; exact h.conns⟩

theorem KeepsUp.accept (h : d.KeepsUp hist) (stream : Source) :
    KeepsUp { d with conns := d.conns ++ [.opening stream] } (hist ++ [.accepted stream]) := by
  refine ⟨?_, fun i hi => ?_, fun i stream' c first writes hs hc hw hbytes => ?_⟩
  · simpa [streamsOf, ConnObs.accepted?] using h.streams
  · rw [passedBy_accepted]
    refine h.fresh i ?_
    simp only [List.length_append, List.length_singleton] at hi
    omega
  · rw [passedBy_accepted]
    rcases conn_of_accept h.streams hs hc with ⟨hs, hc⟩ | ⟨hi, rfl, rfl⟩
    · exact h.conns i stream' c first writes hs hc hw hbytes
    · -- The new connection has passed on nothing.
      exact ⟨h.fresh i hi, hbytes⟩

/-- The thread of a connection has made a step. -/
theorem KeepsUp.set (h : d.KeepsUp hist) {i : ℕ} {c c' : Conn} (hc : d.conns[i]? = some c)
    (obs : Option DaemonCommand) (hconns : d'.conns = d.conns.set i c')
    (hkeeps : ∀ first writes, ClientWrites first writes → c.KeepsUp writes (passedBy i hist) →
      c'.KeepsUp writes (passedBy i hist ++ obs.toList)) :
    d'.KeepsUp (hist ++ (obs.map (ConnObs.passed i)).toList) := by
  have hstreams : streamsOf (hist ++ (obs.map (ConnObs.passed i)).toList) = streamsOf hist := by
    cases obs <;> simp [streamsOf, ConnObs.accepted?]
  have hsame : passedBy i (hist ++ (obs.map (ConnObs.passed i)).toList) =
      passedBy i hist ++ obs.toList := by
    cases obs <;> simp [passedBy, ConnObs.passedBy?]
  have hother : ∀ j ≠ i, passedBy j (hist ++ (obs.map (ConnObs.passed i)).toList) =
      passedBy j hist := by
    intro j hj
    cases obs <;> simp [passedBy, ConnObs.passedBy?, hj.symm]
  obtain ⟨hlt, -⟩ := List.getElem?_eq_some_iff.mp hc
  refine ⟨?_, fun j hj => ?_, fun j stream c₁ first writes hs hc₁ hw hbytes => ?_⟩
  · rw [hstreams, hconns, List.length_set]
    exact h.streams
  · rw [hconns, List.length_set] at hj
    rw [hother j (by omega)]
    exact h.fresh j hj
  · rw [hstreams] at hs
    rw [hconns] at hc₁
    rcases eq_or_ne j i with rfl | hj
    · obtain rfl : c' = c₁ := by
        rw [List.getElem?_set_self hlt] at hc₁
        exact Option.some.inj hc₁
      rw [hsame]
      exact hkeeps first writes hw (h.conns j stream c first writes hs hc hw hbytes)
    · rw [List.getElem?_set_ne hj.symm] at hc₁
      rw [hother j hj]
      exact h.conns j stream c₁ first writes hs hc₁ hw hbytes

theorem KeepsUp.clientStep (h : d.KeepsUp hist) {i : ℕ} {c : Conn} (hc : d.conns[i]? = some c)
    (ok : Bool) : (d.clientStep i ok c).KeepsUp (hist ++ (d.connObs (.client i ok)).toList) := by
  rcases hstep : c.step ok with ⟨c', _ | command⟩
  · have hobs : d.connObs (.client i ok) = (none : Option DaemonCommand).map (.passed i) := by
      rw [connObs, hc, Option.bind_some, hstep]
      exact ite_self none
    rw [hobs]
    refine h.set hc none (by rw [Daemon.clientStep, hstep]) fun first writes hw hk => ?_
    have hnext := (hk.step hw ok).1
    rwa [hstep] at hnext
  · cases hp : d.poisoned with
    | true =>
      -- The command is dropped, and the thread ends.
      have hobs : d.connObs (.client i ok) = (none : Option DaemonCommand).map (.passed i) := by
        rw [connObs, hp, if_pos rfl]
        rfl
      have hconns : (d.clientStep i ok c).conns = d.conns.set i .closed := by
        simp [Daemon.clientStep, hstep, pass, hp]
      rw [hobs]
      refine h.set hc none hconns fun first writes hw hk => ?_
      rw [Option.toList_none, List.append_nil]
      exact hk.sublist
    | false =>
      have hobs : d.connObs (.client i ok) = (some command).map (ConnObs.passed i) := by
        rw [connObs, hp, if_neg (by decide), hc, Option.bind_some, hstep]
      rw [hobs]
      cases hs : d.state.update command with
      | some state =>
        have hconns : (d.clientStep i ok c).conns = d.conns.set i c' := by
          simp [Daemon.clientStep, hstep, pass, hp, hs]
        refine h.set hc (some command) hconns fun first writes hw hk => ?_
        have hnext := (hk.step hw ok).1
        rwa [hstep] at hnext
      | none =>
        obtain rfl := DaemonState.update_eq_none_iff.mp hs
        have hconns : (d.clientStep i ok c).conns = d.conns.set i .closed := by
          simp [Daemon.clientStep, hstep, pass, hp, hs]
        refine h.set hc (some .run) hconns fun first writes hw hk => ?_
        have hne := (hk.step hw ok).2
        rw [hstep] at hne
        exact absurd rfl hne

/-- The step lemma: all connections keep up. -/
theorem KeepsUp.step (h : d.KeepsUp hist) (hs : d.step e l = some d') :
    d'.KeepsUp (hist ++ (d.connObs l).toList) := by
  rcases step_cases hs with ⟨stream, rfl, rfl⟩ | ⟨i, ok, c, rfl, hc, rfl⟩ |
    ⟨drained, m, rfl, rfl⟩ | ⟨rfl, rfl⟩
  · exact h.accept stream
  · exact h.clientStep hc ok
  · rw [connObs, Option.toList_none, List.append_nil]
    exact h.quiet (d.conns_runOnce drained m)
  · rw [connObs, Option.toList_none, List.append_nil]
    exact h.quiet rfl

theorem keepsUp_exec {ls : List Step} (h : exec (Daemon.step e) .new ls = some d) :
    d.KeepsUp (connHistory e ls) :=
  exec_observe (C := fun _ _ => True) (R := KeepsUp)
    (fun _ _ _ _ _ hk hs => hk.step hs) (meets_of_forall (fun _ _ => trivial) _ _) keepsUp_new h

/-- The streams of the connections are those that were accepted. -/
theorem accept_mem_of_streamsOf {ls : List Step} (h : exec (Daemon.step e) .new ls = some d)
    {stream : Source} (hs : stream ∈ streamsOf (connHistory e ls)) : .accept stream ∈ ls := by
  obtain ⟨o, ho, hstream⟩ := List.mem_filterMap.mp hs
  obtain ⟨before, after, hhist⟩ := List.append_of_mem ho
  obtain ⟨ls₁, l, ls₂, u, v, rfl, -, -, -, -, hobs, -⟩ := exists_step_of_observe h hhist
  refine List.mem_append_right _ ?_
  cases l with
  | accept stream' =>
    obtain rfl := Option.some.inj hobs
    obtain rfl : stream' = stream := Option.some.inj hstream
    exact List.mem_cons_self ..
  | client i ok =>
    obtain ⟨-, hpassed⟩ := Option.ite_none_left_eq_some.mp hobs
    obtain ⟨c, -, hc⟩ := Option.bind_eq_some_iff.mp hpassed
    obtain ⟨command, -, rfl⟩ := Option.map_eq_some_iff.mp hc
    cases hstream
  | tick drained m => cases hobs
  | shutdown => cases hobs

/-- Where every client is one of the repository, no step reads `run` in the loop of a client. -/
theorem KeepsUp.not_readsRun (h : d.KeepsUp hist)
    (hclients : ∀ stream ∈ streamsOf hist, ∃ writes, FromClient stream writes) :
    ¬ ReadsRun d l := by
  cases l with
  | client i ok =>
    rintro ⟨reader, reader', hc, hr⟩
    obtain ⟨hlt, -⟩ := List.getElem?_eq_some_iff.mp hc
    have hi : i < (streamsOf hist).length := by rw [h.streams]; exact hlt
    have hs := List.getElem?_eq_getElem hi
    obtain ⟨writes, hfrom⟩ := hclients _ (List.mem_of_getElem? hs)
    obtain ⟨first, hw, hbytes⟩ := hfrom.shape
    have hkeeps := h.conns i _ _ first writes hs hc hw hbytes
    exact (hkeeps.step hw ok).2 (Conn.step_eq_run_iff.mpr ⟨reader, reader', rfl, hr⟩)
  | accept stream => exact id
  | tick drained m => exact id
  | shutdown => exact id

end Daemon

/-- **The daemon carries out what its clients have sent**, in order, and each command once: let a
connection be made by a client of the repository, whose writes may be torn and may go on, and let
the socket deliver some first part of what it writes, in any pieces. Whatever the other clients are
and do, the commands that the connection passes to the shared state are some of those that the
client has written as a whole. -/
theorem own_commands_in_order (e : Endian) {ls : List Step} {d : Daemon} {i : ℕ} {stream : Source}
    {writes : List CommandWrite} (h : exec (Daemon.step e) .new ls = some d)
    (hs : (streamsOf (Daemon.connHistory e ls))[i]? = some stream)
    (hclient : FromClient stream writes) :
    (passedBy i (Daemon.connHistory e ls)).Sublist (wholeOf writes) := by
  have hkeeps := Daemon.keepsUp_exec h
  obtain ⟨first, hw, hbytes⟩ := hclient.shape
  obtain ⟨hi, -⟩ := List.getElem?_eq_some_iff.mp hs
  rw [hkeeps.streams] at hi
  have hc := List.getElem?_eq_getElem hi
  exact (hkeeps.conns i stream _ first writes hs hc hw hbytes).sublist

/-- **The clients of the repository never poison the daemon**: in a run all of whose connections
are made by such clients, no thread panics with the lock held, and the main loop does not end with
a poisoned lock. -/
theorem own_clients_never_poison (e : Endian) {ls : List Step} {d : Daemon}
    (h : exec (Daemon.step e) .new ls = some d)
    (hclients : ∀ stream, .accept stream ∈ ls → ∃ writes, FromClient stream writes) :
    d.poisoned = false ∧ d.exit ≠ some (.error .mutexPoison) := by
  have hstep : ∀ (u : Daemon) (l : Step) (u' : Daemon) (hist : List ConnObs), True →
      (u.KeepsUp hist ∧ ((∀ stream ∈ streamsOf hist, ∃ writes, FromClient stream writes) →
        Unpoisoned u)) → u.step e l = some u' →
      u'.KeepsUp (hist ++ (u.connObs l).toList) ∧
        ((∀ stream ∈ streamsOf (hist ++ (u.connObs l).toList), ∃ writes,
          FromClient stream writes) → Unpoisoned u') := by
    rintro u l u' hist - ⟨hkeeps, hgood⟩ hs
    refine ⟨hkeeps.step hs, fun hall => ?_⟩
    have hbefore : ∀ stream ∈ streamsOf hist, ∃ writes, FromClient stream writes := by
      intro stream hmem
      refine hall stream ?_
      rw [streamsOf, List.filterMap_append]
      exact List.mem_append_left _ hmem
    exact (Daemon.step_unpoisoned_iff (hgood hbefore) hs).mpr (hkeeps.not_readsRun hbefore)
  have hrun := exec_observe (C := fun _ _ => True) hstep (meets_of_forall (fun _ _ => trivial) _ _)
    ⟨Daemon.keepsUp_new, fun _ => by simp [Unpoisoned, Daemon.new]⟩ h
  exact hrun.2 fun stream hmem => hclients stream (Daemon.accept_mem_of_streamsOf h hmem)

/-! ### A client with two keys -/

/-- The client sends `run`, and then two steps of the interval. -/
def twoKeys : List ClientStep :=
  [.connect (some []), .clone true, .send none, .tuiNew true, .tryRecv, .draw (some 5),
    .event (some (.key .press ⟨.char '+', false⟩)) none, .tryRecv, .draw (some 5),
    .event (some (.key .press ⟨.char '-', false⟩)) none]

/-- The first step is delivered together with `run`, and lost at the hand-over. -/
def twoKeysStream : Source :=
  [.bytes 4 [0, 0, 0, 0, 0, 4, 0, 2, 0, 0, 0], .bytes 4 [0, 3, 0], .bytes 0 [0]]

/-- The daemon serves this client. -/
def twoKeysRun : List Step :=
  [.accept twoKeysStream, .client 0 true, .client 0 true, .client 0 true,
    .tick (some []) (firstPids 0), .client 0 true, .client 0 true, .tick (some []) (firstPids 0)]

theorem fromClient_twoKeys : FromClient twoKeysStream
    [(.run, [4, 0, 0, 0, 0, 0]), (.intervalIncrease, [4, 0, 2, 0, 0, 0]),
      (.intervalDecrease, [4, 0, 3, 0, 0, 0])] := by
  obtain ⟨c, hc, hp⟩ := exists_exec_of_any ClientProcess.step (.start none) twoKeys
    (fun c => c.written = [4, 0, 0, 0, 0, 0, 4, 0, 2, 0, 0, 0, 4, 0, 3, 0, 0, 0])
    (by decide +kernel)
  refine ⟨none, twoKeys, c, hc, by decide +kernel, ?_⟩
  rw [of_decide_eq_true hp]
  decide +kernel

theorem own_commands_in_order_two_keys :
    passedBy 0 (Daemon.connHistory .little twoKeysRun) = [.intervalDecrease] ∧
      (passedBy 0 (Daemon.connHistory .little twoKeysRun)).Sublist
        [.run, .intervalIncrease, .intervalDecrease] := by
  obtain ⟨d, hd, -⟩ := exists_exec_of_any (Daemon.step .little) .new twoKeysRun (fun _ => true)
    (by decide +kernel)
  exact ⟨by decide +kernel,
    own_commands_in_order .little hd (by decide +kernel) fromClient_twoKeys⟩

theorem own_clients_never_poison_two_keys :
    ∃ d, exec (Daemon.step .little) .new twoKeysRun = some d ∧ d.state.interval = 900 ∧
      d.poisoned = false ∧ d.exit ≠ some (.error .mutexPoison) := by
  obtain ⟨d, hd, hp⟩ := exists_exec_of_any (Daemon.step .little) .new twoKeysRun
    (fun d => d.state.interval = 900) (by decide +kernel)
  refine ⟨d, hd, of_decide_eq_true hp, own_clients_never_poison .little hd ?_⟩
  intro stream hmem
  obtain rfl : stream = twoKeysStream := by simpa [twoKeysRun] using hmem
  exact ⟨_, fromClient_twoKeys⟩

/-! ### A command of the command line -/

/-- **How far the threads are** with the only command of a client. After `run` there is nothing left
to read. -/
def Conn.Single (command : DaemonCommand) (done : List DaemonCommand) : Conn → Prop
  | opening stream => done = [] ∧ stream.bytes = command.frame
  | initial reader => done = [] ∧ reader.pending = command.frame
  | handover stream => command = .run ∧ done = [] ∧ stream.bytes = []
  | streaming reader => command = .run ∧ done = [] ∧ reader.pending = []
  | closed => done = if command = .run then [] else [command]

theorem Conn.Single.step {command : DaemonCommand} {done : List DaemonCommand} {c : Conn}
    (h : c.Single command done) :
    (c.step true).1.Single command (done ++ (c.step true).2.toList) := by
  cases c with
  | opening stream =>
    obtain ⟨rfl, hstream⟩ := h
    exact ⟨rfl, hstream⟩
  | initial reader =>
    obtain ⟨rfl, hpending⟩ := h
    obtain ⟨hlen, hdec⟩ := command.reads_encode
    have hp : reader.pending = frame (DaemonCommand.codec.encode command) ++ [] := by
      rw [hpending, List.append_nil]
      rfl
    obtain ⟨reader', hr, hrest, -⟩ := readMsg_frame hp hlen hdec
    rcases eq_or_ne command .run with rfl | hne
    · -- The reader is dismantled, and with it no byte is dropped.
      simp only [Conn.step, hr, ne_eq, not_true_eq_false, if_false]
      exact ⟨rfl, rfl, (List.append_eq_nil_iff.mp hrest).2⟩
    · simp only [Conn.step, hr, ne_eq, hne, not_false_eq_true, if_true]
      exact (if_neg hne).symm
  | handover stream =>
    obtain ⟨rfl, rfl, hstream⟩ := h
    exact ⟨rfl, rfl, hstream⟩
  | streaming reader =>
    obtain ⟨rfl, rfl, hpending⟩ := h
    obtain ⟨err, herr⟩ := exists_readMsg_error hpending
    simp only [Conn.step, herr]
    rfl
  | closed => simpa [Conn.step, Conn.Single] using h

namespace Daemon

variable {e : Endian} {d d' : Daemon} {l : Step} {hist : List ConnObs}

/-- Connection `i` carries out its only command, unless the lock is poisoned. -/
def Carries (i : ℕ) (command : DaemonCommand) (d : Daemon) (hist : List ConnObs) : Prop :=
  ∀ stream c, (streamsOf hist)[i]? = some stream → stream.bytes = command.frame →
    d.conns[i]? = some c → d.poisoned = false → c.Single command (passedBy i hist)

/-- A lock that is not poisoned never was. -/
theorem poisoned_of_step (hs : d.step e l = some d') (hp : d'.poisoned = false) :
    d.poisoned = false := by
  rcases step_cases hs with ⟨stream, rfl, rfl⟩ | ⟨i, ok, c, rfl, hc, rfl⟩ |
    ⟨drained, m, rfl, rfl⟩ | ⟨rfl, rfl⟩
  · exact hp
  · cases hd : d.poisoned with
    | false => rfl
    | true => exact absurd hp (by simp [poisoned_clientStep_of_poisoned hd])
  · cases hd : d.poisoned with
    | false => rfl
    | true => simp [runOnce, hd] at hp
  · exact hp

theorem carries_accept {i : ℕ} {command : DaemonCommand} (hk : d.KeepsUp hist)
    (h : d.Carries i command hist) (stream : Source) :
    Carries i command { d with conns := d.conns ++ [.opening stream] }
      (hist ++ [.accepted stream]) := by
  intro stream' c hs hbytes hc hp
  rw [passedBy_accepted]
  rcases conn_of_accept hk.streams hs hc with ⟨hs, hc⟩ | ⟨hi, rfl, rfl⟩
  · exact h stream' c hs hbytes hc hp
  · exact ⟨hk.fresh i hi, hbytes⟩

theorem carries_clientStep {i j : ℕ} {command : DaemonCommand}
    (h : d.Carries i command hist) {c : Conn} (hc : d.conns[j]? = some c) {ok : Bool}
    (hok : j = i → ok = true) :
    (d.clientStep j ok c).Carries i command (hist ++ (d.connObs (.client j ok)).toList) := by
  obtain ⟨hlt, -⟩ := List.getElem?_eq_some_iff.mp hc
  intro stream c₁ hs hbytes hc₁ hp'
  have hp : d.poisoned = false := by
    cases hd : d.poisoned with
    | false => rfl
    | true => exact absurd hp' (by simp [poisoned_clientStep_of_poisoned hd])
  have hobs : d.connObs (.client j ok) = (c.step ok).2.map (ConnObs.passed j) := by
    rw [connObs, hp, if_neg (by decide), hc, Option.bind_some]
  -- The lock is not poisoned by this step either, so it changes the connection as the thread does.
  have hconns : (d.clientStep j ok c).conns = d.conns.set j (c.step ok).1 := by
    rcases hstep : c.step ok with ⟨c', _ | msg⟩
    · simp [clientStep, hstep]
    · cases hupdate : d.state.update msg with
      | none => simp [clientStep, hstep, pass, hp, hupdate] at hp'
      | some state => simp [clientStep, hstep, pass, hp, hupdate]
  have hstreams : streamsOf (hist ++ (d.connObs (.client j ok)).toList) = streamsOf hist := by
    rw [hobs]
    cases (c.step ok).2 <;> simp [streamsOf, ConnObs.accepted?]
  rw [hstreams] at hs
  rw [hconns] at hc₁
  rw [hobs]
  rcases eq_or_ne j i with rfl | hj
  · obtain rfl := hok rfl
    obtain rfl : (c.step true).1 = c₁ := by
      rw [List.getElem?_set_self hlt] at hc₁
      exact Option.some.inj hc₁
    have hpassed : passedBy j (hist ++ ((c.step true).2.map (ConnObs.passed j)).toList) =
        passedBy j hist ++ (c.step true).2.toList := by
      cases (c.step true).2 <;> simp [passedBy, ConnObs.passedBy?]
    rw [hpassed]
    exact (h stream c hs hbytes hc hp).step
  · have hpassed : passedBy i (hist ++ ((c.step ok).2.map (ConnObs.passed j)).toList) =
        passedBy i hist := by
      cases (c.step ok).2 <;> simp [passedBy, ConnObs.passedBy?, hj]
    rw [List.getElem?_set_ne hj] at hc₁
    rw [hpassed]
    exact h stream c₁ hs hbytes hc₁ hp

/-- The step lemma: the only command of a connection is carried out once. -/
theorem carries_step {i : ℕ} {command : DaemonCommand}
    (hl : l ≠ .client i false) (hk : d.KeepsUp hist) (h : d.Carries i command hist)
    (hs : d.step e l = some d') : d'.Carries i command (hist ++ (d.connObs l).toList) := by
  have hpoisoned := poisoned_of_step hs
  rcases step_cases hs with ⟨stream, rfl, rfl⟩ | ⟨j, ok, c, rfl, hc, rfl⟩ |
    ⟨drained, m, rfl, rfl⟩ | ⟨rfl, rfl⟩
  · exact carries_accept hk h stream
  · refine carries_clientStep h hc fun hj => ?_
    cases ok with
    | true => rfl
    | false => exact absurd (by rw [hj]) hl
  · rw [connObs, Option.toList_none, List.append_nil]
    intro stream c hstream hbytes hc hp
    rw [conns_runOnce] at hc
    exact h stream c hstream hbytes hc (hpoisoned hp)
  · rw [connObs, Option.toList_none, List.append_nil]
    exact h

end Daemon

/-- **A command of the command line is carried out exactly once**: let a client send one command and
end well, and let the socket deliver what it has written, in any pieces, to connection `i`, whose
system calls do not fail. When the threads of this connection are at their end, and the lock has not
been poisoned by another client, the connection has passed on this command and nothing else, or
nothing at all if it is `run`; and an interval that the command line allows is set as it is. -/
theorem cli_command_exact (e : Endian) {command : DaemonCommand} {ks : List ClientStep}
    {c : ClientProcess} {ls : List Step} {d : Daemon} {i : ℕ} {stream : Source}
    (hclient : exec ClientProcess.step (.start (some (.daemon command))) ks = some c)
    (hok : c.main = .returned (.ok ())) (hbytes : stream.bytes = c.written)
    (h : exec (Daemon.step e) .new ls = some d)
    (hs : (streamsOf (Daemon.connHistory e ls))[i]? = some stream)
    (hcalls : ∀ l ∈ ls, l ≠ .client i false) (hend : d.conns[i]? = some .closed)
    (hp : d.poisoned = false) :
    passedBy i (Daemon.connHistory e ls) = (if command = .run then [] else [command]) ∧
      ∀ millis : UInt64, command = .interval millis → 100 ≤ millis.toNat → millis.toNat ≤ 5000 →
        ∀ s : DaemonState, ∃ s', s.update command = some s' ∧ s'.interval = millis := by
  have hframe : c.written = command.frame := by
    rcases (ClientProcess.oneShot_exec hclient).main with ⟨hm | hm | hm, -⟩ | ⟨err, hm⟩ | ⟨-, hw⟩
    · cases hok.symm.trans hm
    · cases hok.symm.trans hm
    · cases hok.symm.trans hm
    · cases hok.symm.trans hm
    · exact hw
  have hrun : d.KeepsUp (Daemon.connHistory e ls) ∧
      d.Carries i command (Daemon.connHistory e ls) :=
    exec_observe (C := fun _ l => l ≠ .client i false)
      (R := fun d hist => d.KeepsUp hist ∧ d.Carries i command hist)
      (fun _ _ _ _ hl hR hstep => ⟨hR.1.step hstep, Daemon.carries_step hl hR.1 hR.2 hstep⟩)
      (meets_of_forall_mem (fun l hl _ => hcalls l hl) _)
      ⟨Daemon.keepsUp_new, by simp [Daemon.Carries, Daemon.new]⟩ h
  refine ⟨hrun.2 stream .closed hs (hbytes.trans hframe) hend hp, ?_⟩
  rintro millis rfl hlo hhi s
  refine ⟨_, rfl, ?_⟩
  have hle : MIN_INTERVAL_MILLIS ≤ millis := UInt64.le_iff_toNat_le.mpr hlo
  have hge : millis ≤ MAX_INTERVAL_MILLIS := UInt64.le_iff_toNat_le.mpr hhi
  show clamp MIN_INTERVAL_MILLIS MAX_INTERVAL_MILLIS millis = millis
  rw [clamp, if_neg (UInt64.not_lt.mpr hle), if_neg (UInt64.not_lt.mpr hge)]

/-- `procnet daemon interval 250`. -/
def intervalClient : List ClientStep := [.connect (some []), .clone true, .send none]

/-- The command arrives in three pieces, while the main loop goes on. -/
def intervalStream : Source :=
  [.bytes 12 [], .bytes 0 [1, 0, 0, 0, 250], .bytes 0 [0, 0, 0, 0, 0, 0]]

def intervalRun : List Step :=
  [.tick (some []) (firstPids 0), .accept intervalStream, .client 0 true,
    .tick (some []) (firstPids 0), .client 0 true]

theorem cli_command_exact_interval :
    passedBy 0 (Daemon.connHistory .little intervalRun) = [.interval 250] ∧
      ∀ s : DaemonState, ∃ s', s.update (.interval 250) = some s' ∧ s'.interval = 250 := by
  obtain ⟨c, hc, hw⟩ := exists_exec_of_any ClientProcess.step
    (.start (some (.daemon (.interval 250)))) intervalClient
    (fun c => c.main = .returned (.ok ()) ∧ intervalStream.bytes = c.written) (by decide +kernel)
  obtain ⟨hok, hbytes⟩ := of_decide_eq_true hw
  obtain ⟨d, hd, hp⟩ := exists_exec_of_any (Daemon.step .little) .new intervalRun
    (fun d => d.conns[0]? = some .closed ∧ d.poisoned = false) (by decide +kernel)
  obtain ⟨hend, hp⟩ := of_decide_eq_true hp
  obtain ⟨hpassed, hset⟩ := cli_command_exact .little hc hok hbytes hd
    (by decide +kernel) (by simp [intervalRun]) hend hp
  exact ⟨hpassed, hset 250 rfl (by decide) (by decide)⟩

end Procnet
