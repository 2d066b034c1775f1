import Procnet.Core.Stream
import Procnet.Daemon.Server
import Procnet.Tui.Session

/-!
# The client as a process

What `procnet/src/main.rs` does from its start to its end: it connects, sends its first command,
and, unless that is a command of the command line, sets up the terminal, starts a thread that
receives the snapshots and enters its loop. The thread puts every snapshot into a channel; the loop
takes out what has arrived before it draws a frame, and hands a key to the bindings after it. The
two threads, the socket and the terminal interleave in any way.

A `ClientProcess` refines a `Session`, which knows neither the channel nor the socket
(`exists_exec_session`). What it has shown is recorded by the history of a run (`ClientObs`).
-/

namespace Procnet

open Lib

/-- What the terminal fails at. -/
inductive TuiError where
  | draw : TuiError
  | event : TuiError
  deriving DecidableEq, Repr

/-- Why the client fails. -/
inductive ClientError where
  | socketConnection : ClientError
  | streamClone : ClientError
  | msgSendError : ClientError
  | tui (source : TuiError) : ClientError
  | daemonHangup : ClientError
  | threadPanic : ClientError
  deriving DecidableEq, Repr

/-- The command of the command line. -/
inductive Command where
  | run : Command
  | daemon (command : DaemonCommand) : Command
  deriving DecidableEq, Repr

/-- Where the main thread panics. -/
inductive PanicPoint where
  /-- Before the loop: the terminal cannot be used, or the receiving thread not be spawned. -/
  | setUp : PanicPoint
  /-- In the loop: an access by index is out of range. -/
  | index : PanicPoint
  deriving DecidableEq, Repr

/-- Where the main thread is. -/
inductive MainPc where
  | connecting : MainPc
  | cloning : MainPc
  /-- Its first command is to be sent. -/
  | sending : MainPc
  /-- The terminal is to be set up. -/
  | settingUp : MainPc
  /-- It takes the snapshots out of the channel. -/
  | polling : MainPc
  | drawing : MainPc
  /-- It waits for an event of the terminal. -/
  | waiting : MainPc
  /-- A key wants the frame drawn once more. -/
  | redrawing : MainPc
  | returned (result : Except ClientError Unit) : MainPc
  | panicked (point : PanicPoint) : MainPc
  deriving DecidableEq

/-- The main thread is at its end. -/
def MainPc.over : MainPc → Bool
  | .returned _ | .panicked _ => true
  | .connecting | .cloning | .sending | .settingUp | .polling | .drawing | .waiting | .redrawing =>
    false

/-- The loop has not begun. -/
def MainPc.Early (pc : MainPc) : Prop :=
  pc = .connecting ∨ pc = .cloning ∨ pc = .sending ∨ pc = .settingUp

/-- The thread that receives the snapshots. -/
inductive Receiver where
  | unspawned : Receiver
  | reading (reader : SocketReader) : Receiver
  | finished : Receiver
  deriving DecidableEq, Repr

inductive KeyEventKind where
  | press : KeyEventKind
  | repeated : KeyEventKind
  | release : KeyEventKind
  deriving DecidableEq, Repr

/-- What the terminal reports within the timeout. -/
inductive TermEvent where
  | timeout : TermEvent
  | key (kind : KeyEventKind) (key : KeyEvent) : TermEvent
  /-- The window is resized, gains the focus, or the like. -/
  | other : TermEvent
  deriving DecidableEq, Repr

/-- The key that is handled: only a press counts. -/
def TermEvent.pressed : TermEvent → Option KeyEvent
  | .key .press ev => some ev
  | .key .repeated _ | .key .release _ | .timeout | .other => none

/-- A client, with its end of the socket. -/
structure ClientProcess where
  command : Option Command
  main : MainPc
  snap : SnapshotData
  state : TuiState
  receiver : Receiver
  /-- The snapshots that have been received, and not taken. -/
  channel : List SnapshotData
  /-- What the socket will deliver. -/
  source : Source
  /-- What has been written to the socket. -/
  written : List UInt8
  deriving DecidableEq

/-- What can happen next. -/
inductive ClientStep where
  /-- `connect_to_socket` returns: with what the socket will deliver, or with an error. -/
  | connect (source : Option Source) : ClientStep
  | clone (ok : Bool) : ClientStep
  /-- The first command is sent. -/
  | send (accepted : Option ℕ) : ClientStep
  /-- `Tui::new` takes over the terminal and the receiving thread is spawned, or one of the two
  panics. -/
  | tuiNew (ok : Bool) : ClientStep
  /-- The receiving thread reads a message, and puts it into the channel. -/
  | receive : ClientStep
  /-- The main thread looks into the channel. -/
  | tryRecv : ClientStep
  /-- A frame is drawn, with some height left for the table, or the terminal fails. -/
  | draw (height : Option ℕ) : ClientStep
  /-- The terminal reports an event, or fails. -/
  | event (ev : Option TermEvent) (accepted : Option ℕ) : ClientStep
  deriving DecidableEq, Repr

/-- What sending a command puts on the socket, and whether it succeeds. A write that fails may have
put some bytes there already. -/
def sendDaemonCommand (command : DaemonCommand) (accepted : Option ℕ) : List UInt8 × Bool :=
  match writeMsg DaemonCommand.codec.encode [] command with
  | (_, .error _) => ([], false)
  | (buf, .ok ()) =>
    match accepted with
    | none => (buf, true)
    | some n => (buf.take n, false)

namespace ClientProcess

/-- The client when it starts. -/
def start (command : Option Command) : ClientProcess where
  command := command
  main := .connecting
  snap := ⟨0, 0, [], []⟩
  state := .new
  receiver := .unspawned
  channel := []
  source := []
  written := []

/-- The main thread returns. -/
def ret (c : ClientProcess) (result : Except ClientError Unit) : ClientProcess :=
  { c with main := .returned result }

/-- The command a client sends first. -/
def firstCommand (c : ClientProcess) : DaemonCommand :=
  match c.command with
  | some (.daemon command) => command
  | some .run | none => .run

/-- The first command is sent: one of the command line is all there is to do. -/
def send (c : ClientProcess) (accepted : Option ℕ) : ClientProcess :=
  let (bytes, ok) := sendDaemonCommand c.firstCommand accepted
  let c := { c with written := c.written ++ bytes }
  if ok then
    match c.command with
    | some (.daemon _) => c.ret (.ok ())
    | some .run | none => { c with main := .settingUp }
  else c.ret (.error .msgSendError)

/-- The terminal is set up, the receiving thread is spawned, and the loop begins. -/
def tuiNew (c : ClientProcess) (ok : Bool) : ClientProcess :=
  if ok then { c with main := .polling, receiver := .reading (.new c.source) }
  else { c with main := .panicked .setUp }

/-- The receiving thread reads a message. The channel is closed once the main thread is at its
end. -/
def receive (c : ClientProcess) (reader : SocketReader) : ClientProcess :=
  match readMsg SnapshotData.codec.decode reader with
  | .ok (snap, reader) =>
    if c.main.over then { c with receiver := .finished }
    else { c with receiver := .reading reader, channel := c.channel ++ [snap] }
  | .error _ => { c with receiver := .finished }

/-- The main thread looks into the channel. While the feed is paused, what is in it is dropped. -/
def tryRecv (c : ClientProcess) : ClientProcess :=
  match c.channel with
  | newSnap :: channel =>
    if c.state.paused then { c with channel } else { c with channel, snap := newSnap }
  | [] =>
    if c.receiver = .finished then c.ret (.error .daemonHangup) else { c with main := .drawing }

/-- A frame is drawn. -/
def draw (c : ClientProcess) (height : ℕ) (main : MainPc) : ClientProcess :=
  match render c.snap height c.state with
  | some (state, _) => { c with state, main }
  | none => { c with main := .panicked .index }

/-- A key is handled. Errors of the write are ignored. -/
def press (c : ClientProcess) (key : KeyEvent) (accepted : Option ℕ) : ClientProcess :=
  match handleKey c.state key with
  | none => { c with main := .panicked .index }
  | some ⟨state, action, sent⟩ =>
    let bytes := (sent.map fun command => (sendDaemonCommand command accepted).1).getD []
    let c := { c with state, written := c.written ++ bytes }
    match action with
    | .quit => c.ret (.ok ())
    | .redraw => { c with main := .redrawing }
    | .none => { c with main := .polling }

/-- One step of the client. -/
def step (c : ClientProcess) (l : ClientStep) : Option ClientProcess :=
  match l, c.main with
  | .connect none, .connecting => some (c.ret (.error .socketConnection))
  | .connect (some source), .connecting => some { c with main := .cloning, source }
  | .clone false, .cloning => some (c.ret (.error .streamClone))
  | .clone true, .cloning => some { c with main := .sending }
  | .send accepted, .sending => some (c.send accepted)
  | .tuiNew ok, .settingUp => some (c.tuiNew ok)
  | .receive, _ =>
    match c.receiver with
    | .reading reader => some (c.receive reader)
    | .unspawned | .finished => none
  | .tryRecv, .polling => some c.tryRecv
  | .draw none, .drawing | .draw none, .redrawing => some (c.ret (.error (.tui .draw)))
  | .draw (some height), .drawing => some (c.draw height .waiting)
  | .draw (some height), .redrawing => some (c.draw height .polling)
  | .event none _, .waiting => some (c.ret (.error (.tui .event)))
  | .event (some ev) accepted, .waiting =>
    match ev.pressed with
    | none => some { c with main := .polling }
    | some key => some (c.press key accepted)
  | _, _ => none

variable {c c' : ClientProcess} {l : ClientStep}

/-- **What a step can do.** -/
theorem step_cases (h : c.step l = some c') :
    (∃ main source, ((∃ source, l = .connect source) ∧ c.main = .connecting ∨
        (∃ ok, l = .clone ok) ∧ c.main = .cloning ∧ source = c.source) ∧
      (main = .cloning ∨ main = .sending ∨
        ∃ err, main = .returned (.error err) ∧ err ≠ .daemonHangup) ∧
      c' = { c with main, source }) ∨
    (∃ accepted, l = .send accepted ∧ c.main = .sending ∧ c' = c.send accepted) ∨
    (∃ ok, l = .tuiNew ok ∧ c.main = .settingUp ∧ c' = c.tuiNew ok) ∨
    (∃ reader, l = .receive ∧ c.receiver = .reading reader ∧ c' = c.receive reader) ∨
    (l = .tryRecv ∧ c.main = .polling ∧ c' = c.tryRecv) ∨
    (∃ height main, l = .draw (some height) ∧ c' = c.draw height main ∧
      (c.main = .drawing ∧ main = .waiting ∨ c.main = .redrawing ∧ main = .polling)) ∨
    (∃ ev key accepted, l = .event (some ev) accepted ∧ c.main = .waiting ∧
      ev.pressed = some key ∧ c' = c.press key accepted) ∨
    ((∃ ev accepted, l = .event (some ev) accepted ∧ ev.pressed = none) ∧ c.main = .waiting ∧
      c' = { c with main := .polling }) ∨
    (∃ err, (l = .draw none ∧ (c.main = .drawing ∨ c.main = .redrawing) ∨
        ∃ accepted, l = .event none accepted ∧ c.main = .waiting) ∧
      c' = c.ret (.error (.tui err))) := by
  unfold step at h
  split at h
  case h_1 hm =>
    exact Or.inl ⟨_, c.source, Or.inl ⟨⟨_, rfl⟩, hm⟩, by simp, (Option.some.inj h).symm⟩
  case h_2 source hm =>
    exact Or.inl ⟨_, source, Or.inl ⟨⟨_, rfl⟩, hm⟩, by simp, (Option.some.inj h).symm⟩
  case h_3 hm =>
    exact Or.inl ⟨_, _, Or.inr ⟨⟨_, rfl⟩, hm, rfl⟩, by simp, (Option.some.inj h).symm⟩
  case h_4 hm =>
    exact Or.inl ⟨_, _, Or.inr ⟨⟨_, rfl⟩, hm, rfl⟩, by simp, (Option.some.inj h).symm⟩
  case h_5 accepted hm => exact Or.inr (Or.inl ⟨accepted, rfl, hm, (Option.some.inj h).symm⟩)
  case h_6 ok hm => exact Or.inr (Or.inr (Or.inl ⟨ok, rfl, hm, (Option.some.inj h).symm⟩))
  case h_7 =>
    split at h
    case h_1 reader hr =>
      exact Or.inr (Or.inr (Or.inr (Or.inl ⟨reader, rfl, hr, (Option.some.inj h).symm⟩)))
    case h_2 => cases h
    case h_3 => cases h
  case h_8 hm =>
    exact Or.inr (Or.inr (Or.inr (Or.inr (Or.inl ⟨rfl, hm, (Option.some.inj h).symm⟩))))
  case h_9 hm =>
    refine Or.inr (Or.inr (Or.inr (Or.inr (Or.inr (Or.inr (Or.inr (Or.inr
      ⟨.draw, Or.inl ⟨rfl, ?_⟩, ?_⟩)))))))
    · exact Or.inl hm
    · exact (Option.some.inj h).symm
  case h_10 hm =>
    refine Or.inr (Or.inr (Or.inr (Or.inr (Or.inr (Or.inr (Or.inr (Or.inr
      ⟨.draw, Or.inl ⟨rfl, ?_⟩, ?_⟩)))))))
    · exact Or.inr hm
    · exact (Option.some.inj h).symm
  case h_11 height hm =>
    exact Or.inr (Or.inr (Or.inr (Or.inr (Or.inr (Or.inl
      ⟨height, .waiting, rfl, (Option.some.inj h).symm, Or.inl ⟨hm, rfl⟩⟩)))))
  case h_12 height hm =>
    exact Or.inr (Or.inr (Or.inr (Or.inr (Or.inr (Or.inl
      ⟨height, .polling, rfl, (Option.some.inj h).symm, Or.inr ⟨hm, rfl⟩⟩)))))
  case h_13 accepted hm =>
    exact Or.inr (Or.inr (Or.inr (Or.inr (Or.inr (Or.inr (Or.inr (Or.inr
      ⟨.event, Or.inr ⟨accepted, rfl, hm⟩, (Option.some.inj h).symm⟩)))))))
  case h_14 ev accepted hm =>
    split at h
    case h_1 hev =>
      exact Or.inr (Or.inr (Or.inr (Or.inr (Or.inr (Or.inr (Or.inr (Or.inl
        ⟨⟨ev, accepted, rfl, hev⟩, hm, (Option.some.inj h).symm⟩)))))))
    case h_2 key hev =>
      exact Or.inr (Or.inr (Or.inr (Or.inr (Or.inr (Or.inr (Or.inl
        ⟨ev, key, accepted, rfl, hm, hev, (Option.some.inj h).symm⟩))))))
  case h_15 => cases h

/-- The first command is one of the command line. -/
def Brief (c : ClientProcess) : Prop := ∃ command, c.command = some (.daemon command)

/-- **What sending the first command can do.** -/
theorem send_cases (c : ClientProcess) (accepted : Option ℕ) :
    ∃ bytes ok, sendDaemonCommand c.firstCommand accepted = (bytes, ok) ∧
      ((ok = false ∧
          c.send accepted = ret { c with written := c.written ++ bytes } (.error .msgSendError)) ∨
        (ok = true ∧ c.Brief ∧
          c.send accepted = ret { c with written := c.written ++ bytes } (.ok ())) ∨
        (ok = true ∧ ¬ c.Brief ∧
          c.send accepted = { c with written := c.written ++ bytes, main := .settingUp })) := by
  rcases hsend : sendDaemonCommand c.firstCommand accepted with ⟨bytes, ok⟩
  refine ⟨bytes, ok, rfl, ?_⟩
  rw [send, hsend]
  cases ok with
  | false => exact Or.inl ⟨rfl, rfl⟩
  | true =>
    rcases hcommand : c.command with _ | _ | command
    · refine Or.inr (Or.inr ⟨rfl, ?_, by simp only [if_true]⟩)
      rintro ⟨command, hbrief⟩
      rw [hcommand] at hbrief
      cases hbrief
    · refine Or.inr (Or.inr ⟨rfl, ?_, by simp only [if_true]⟩)
      rintro ⟨command, hbrief⟩
      rw [hcommand] at hbrief
      cases hbrief
    · exact Or.inr (Or.inl ⟨rfl, ⟨command, hcommand⟩, by simp only [if_true]⟩)

/-! ### What a step leaves alone -/

/-- **The receiving thread** leaves alone what the main thread works on. -/
theorem receive_frame (c : ClientProcess) (reader : SocketReader) :
    (c.receive reader).main = c.main ∧ (c.receive reader).snap = c.snap ∧
      (c.receive reader).state = c.state ∧ (c.receive reader).command = c.command ∧
      (c.receive reader).written = c.written := by
  unfold receive
  split
  · split <;> exact ⟨rfl, rfl, rfl, rfl, rfl⟩
  · exact ⟨rfl, rfl, rfl, rfl, rfl⟩

/-- Looking into the channel writes nothing. -/
theorem tryRecv_frame (hm : c.main = .polling) :
    (c.tryRecv.main = .polling ∨ c.tryRecv.main = .drawing ∨
      c.tryRecv.main = .returned (.error .daemonHangup)) ∧
      c.tryRecv.command = c.command ∧ c.tryRecv.written = c.written := by
  unfold tryRecv
  split
  · split <;> exact ⟨Or.inl hm, rfl, rfl⟩
  · split
    · exact ⟨Or.inr (Or.inr rfl), rfl, rfl⟩
    · exact ⟨Or.inr (Or.inl rfl), rfl, rfl⟩

/-- Drawing a frame writes nothing. -/
theorem draw_frame (c : ClientProcess) (height : ℕ) (main : MainPc) :
    ((c.draw height main).main = main ∨ (c.draw height main).main = .panicked .index) ∧
      (c.draw height main).command = c.command ∧ (c.draw height main).written = c.written := by
  unfold draw
  split
  · exact ⟨Or.inl rfl, rfl, rfl⟩
  · exact ⟨Or.inr rfl, rfl, rfl⟩

/-- **A key** changes neither the snapshot nor the channel. -/
theorem press_frame (c : ClientProcess) (key : KeyEvent) (accepted : Option ℕ) :
    (c.press key accepted).snap = c.snap ∧ (c.press key accepted).channel = c.channel ∧
      (c.press key accepted).source = c.source ∧
      (c.press key accepted).receiver = c.receiver ∧
      ((c.press key accepted).main = .panicked .index ∨
        (c.press key accepted).main = .returned (.ok ()) ∨
        (c.press key accepted).main = .redrawing ∨ (c.press key accepted).main = .polling) := by
  unfold press
  rcases handleKey c.state key with _ | ⟨state, action, sent⟩
  · exact ⟨rfl, rfl, rfl, rfl, Or.inl rfl⟩
  · cases action with
    | quit => exact ⟨rfl, rfl, rfl, rfl, Or.inr (Or.inl rfl)⟩
    | redraw => exact ⟨rfl, rfl, rfl, rfl, Or.inr (Or.inr (Or.inl rfl))⟩
    | none => exact ⟨rfl, rfl, rfl, rfl, Or.inr (Or.inr (Or.inr rfl))⟩

/-! ### The session of a client -/

end ClientProcess

/-- Where the loop of the session is. -/
def MainPc.phase : MainPc → LoopPhase
  | .connecting | .cloning | .sending | .settingUp | .polling | .drawing => .draining
  | .waiting => .waiting
  | .redrawing => .redrawing
  -- A client without a terminal has no loop to be in.
  | .returned _ | .panicked .setUp => .quit
  | .panicked .index => .panicked

namespace ClientProcess

variable {c c' : ClientProcess} {l : ClientStep}

/-- What the session is about: the screen, without the channel and the socket. -/
def session (c : ClientProcess) : Session := ⟨c.snap, c.state, c.main.phase⟩

theorem session_start (command : Option Command) : (start command).session = .new := rfl

/-- Leaving the loop, or not entering it. -/
theorem exec_leave (hm : c.main.over = false) {main : MainPc} (hmain : main.phase = .quit) :
    exec Session.step c.session [.fail] = some (session { c with main }) := by
  have hphase : ¬ (c.session.phase = .quit ∨ c.session.phase = .panicked) := by
    cases hc : c.main <;> simp_all [session, MainPc.phase, MainPc.over]
  rw [exec_singleton, Session.step, if_neg hphase, ← hmain]
  rfl

theorem exec_ret (hm : c.main.over = false) (result : Except ClientError Unit) :
    exec Session.step c.session [.fail] = some (c.ret result).session :=
  exec_leave hm rfl

/-- **Setting up the terminal** leaves the screen as it is. -/
theorem exec_tuiNew (hm : c.main = .settingUp) (ok : Bool) :
    ∃ ls, exec Session.step c.session ls = some (c.tuiNew ok).session := by
  cases ok with
  | true => exact ⟨[], by rw [exec_nil, session, hm]; rfl⟩
  | false => exact ⟨[.fail], exec_leave (by rw [hm]; rfl) rfl⟩

theorem session_draw (c : ClientProcess) (height : ℕ) (main : MainPc) :
    (c.draw height main).session = c.session.draw height main.phase := by
  unfold draw Session.draw
  show _ = match render c.snap height c.state with
    | some (state, _) => _
    | none => _
  cases render c.snap height c.state with
  | none => rfl
  | some p => rfl

/-- **Handling a key** is a step of the session. -/
theorem exec_press (hm : c.main = .waiting) (key : KeyEvent) (accepted : Option ℕ) :
    exec Session.step c.session [.event (some key)] = some (c.press key accepted).session := by
  have hphase : c.session.phase = .waiting := by rw [session, hm]; rfl
  rw [exec_singleton, Session.step, if_neg (not_not.mpr hphase), press]
  show (match handleKey c.state key with
    | none => _
    | some ⟨state, action, _⟩ => _) = _
  rcases handleKey c.state key with _ | ⟨state, action, sent⟩
  · rfl
  · cases action <;> rfl

/-- **What a step of the client is to its session**: a step of it, or none. -/
theorem exec_session_step (h : c.step l = some c') :
    ∃ ls, exec Session.step c.session ls = some c'.session := by
  rcases step_cases h with ⟨main, source, hm, hmain, rfl⟩ | ⟨accepted, -, hm, rfl⟩ |
    ⟨ok, -, hm, rfl⟩ | ⟨reader, -, -, rfl⟩ | ⟨-, hm, rfl⟩ | ⟨height, main, -, rfl, hm⟩ |
    ⟨ev, key, accepted, -, hm, -, rfl⟩ | ⟨-, hm, rfl⟩ | ⟨err, hm, rfl⟩
  · have hover : c.main.over = false := by rcases hm with ⟨-, hm⟩ | ⟨-, hm, -⟩ <;> rw [hm] <;> rfl
    have hphase : c.main.phase = .draining := by
      rcases hm with ⟨-, hm⟩ | ⟨-, hm, -⟩ <;> rw [hm] <;> rfl
    rcases hmain with rfl | rfl | ⟨err, rfl, -⟩
    · exact ⟨[], by rw [exec_nil, session, hphase]; rfl⟩
    · exact ⟨[], by rw [exec_nil, session, hphase]; rfl⟩
    · exact ⟨[.fail], exec_ret hover _⟩
  · have hover : c.main.over = false := by rw [hm]; rfl
    -- The socket is none of the session's business.
    have hret : ∀ written result, exec Session.step c.session [.fail] =
        some (ret { c with written } result).session := fun written result =>
      exec_ret (c := { c with written }) hover result
    obtain ⟨bytes, ok, -, ⟨-, hsend⟩ | ⟨-, -, hsend⟩ | ⟨-, -, hsend⟩⟩ := c.send_cases accepted
    · exact ⟨[.fail], by rw [hsend]; exact hret _ _⟩
    · exact ⟨[.fail], by rw [hsend]; exact hret _ _⟩
    · exact ⟨[], by rw [hsend, exec_nil, session, hm]; rfl⟩
  · exact exec_tuiNew hm ok
  · refine ⟨[], ?_⟩
    obtain ⟨hmain, hsnap, hstate, -⟩ := c.receive_frame reader
    rw [exec_nil, session, session, hmain, hsnap, hstate]
  · have hphase : c.session.phase = .draining := by rw [session, hm]; rfl
    unfold tryRecv
    split
    case h_1 newSnap channel hchannel =>
      refine ⟨[.recv newSnap], ?_⟩
      rw [exec_singleton, Session.step, if_neg (not_not.mpr hphase)]
      show (if c.state.paused then _ else _) = _
      split <;> rfl
    case h_2 =>
      split
      · exact ⟨[.fail], exec_ret (by rw [hm]; rfl) _⟩
      · exact ⟨[], by rw [exec_nil, session, hm]; rfl⟩
  · refine ⟨[.draw height], ?_⟩
    rw [session_draw, exec_singleton]
    rcases hm with ⟨hm, rfl⟩ | ⟨hm, rfl⟩
    · have hphase : c.session.phase = .draining := by rw [session, hm]; rfl
      simp only [Session.step, hphase]
      rfl
    · have hphase : c.session.phase = .redrawing := by rw [session, hm]; rfl
      simp only [Session.step, hphase]
      rfl
  · exact ⟨[.event (some key)], exec_press hm key accepted⟩
  · refine ⟨[.event none], ?_⟩
    have hphase : c.session.phase = .waiting := by rw [session, hm]; rfl
    rw [exec_singleton, Session.step, if_neg (not_not.mpr hphase)]
    rfl
  · refine ⟨[.fail], exec_ret ?_ _⟩
    rcases hm with ⟨-, hm | hm⟩ | ⟨_, -, hm⟩ <;> rw [hm] <;> rfl

/-- **A run of the client is a run of its session.** -/
theorem exists_exec_session {command : Option Command} {ls : List ClientStep}
    (h : exec step (start command) ls = some c) :
    ∃ ms, exec Session.step .new ms = some c.session := by
  rw [← session_start command]
  exact exists_exec_of_simulates session (fun _ _ _ => exec_session_step) h

end ClientProcess

end Procnet
