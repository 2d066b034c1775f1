import Procnet.Daemon.Torn
import Procnet.Tui.Feed

/-!
# What a client writes

The first command of a client, and then those of its keys, each as far as the socket takes it: an
error ends the client only at the first one. So the writes of a run (`wroteOf`) are of one shape
(`ClientWrites`), and what is on the socket is what they leave there (`wrote_exec`).
-/

namespace Procnet

open Lib

/-- A write of a command. -/
def ClientObs.wrote? : ClientObs → Option CommandWrite
  | wrote command bytes => some (command, bytes)
  | received _ | taken .. | drawn _ => none

/-- The writes of a run. -/
def wroteOf (hist : List ClientObs) : List CommandWrite := hist.filterMap ClientObs.wrote?

theorem wroteOf_append (hist hist' : List ClientObs) :
    wroteOf (hist ++ hist') = wroteOf hist ++ wroteOf hist' := List.filterMap_append

/-- **What a client writes**: nothing, a first part of its first command, or `run` and then the
commands of its keys. -/
def ClientWrites (first : DaemonCommand) (writes : List CommandWrite) : Prop :=
  writes = [] ∨ (∃ bytes, writes = [(first, bytes)] ∧ bytes <+: first.frame) ∨
    ∃ rest, first = .run ∧ writes = (.run, DaemonCommand.run.frame) :: rest ∧ Steps rest

/-- **What sending a command leaves on the socket.** -/
theorem sendDaemonCommand_cases (command : DaemonCommand) (accepted : Option ℕ) :
    (sendDaemonCommand command accepted).1 <+: command.frame ∧
      ((sendDaemonCommand command accepted).2 = true →
        (sendDaemonCommand command accepted).1 = command.frame) := by
  have hbuf : writeMsg DaemonCommand.codec.encode [] command = (command.frame, .ok ()) := by
    rw [writeMsg_eq, if_pos command.reads_encode.1]
    rfl
  unfold sendDaemonCommand
  rw [hbuf]
  cases accepted with
  | none => exact ⟨List.prefix_refl _, fun _ => rfl⟩
  | some n => exact ⟨List.take_prefix n _, by simp⟩

/-! ### The commands of keys -/

/-- What handling a key sends, if anything. -/
def SendsStep (r : Option Handled) : Prop :=
  ∀ handled, r = some handled → ∀ command, handled.sent = some command → command.IsStep

theorem sendsStep_done (s : TuiState) (action : Action) : SendsStep (done s action) := by
  rintro handled h command hsent
  obtain rfl := Option.some.inj h
  cases hsent

theorem sendsStep_applySort (s : TuiState) (key : SortKey) : SendsStep (applySort s key) := by
  unfold applySort
  split
  · exact sendsStep_done _ _
  · exact sendsStep_done _ _

theorem sendsStep_moveCursor (s : TuiState) (isUp : Bool) : SendsStep (moveCursor s isUp) := by
  unfold moveCursor
  split
  · simp only
    split
    · exact sendsStep_done _ _
    · exact sendsStep_done _ _
  · exact sendsStep_done _ _
  · exact sendsStep_done _ _

theorem sendsStep_filterInput (s : TuiState) (key : KeyEvent) :
    SendsStep (handleFilterInput s key) := by
  obtain ⟨code, control⟩ := key
  cases code <;> exact sendsStep_done _ _

theorem sendsStep_mainKeys (s : TuiState) : ∀ kb ∈ MAIN_KEYS, SendsStep (kb.action s) := by
  simp only [MAIN_KEYS, List.forall_mem_cons]
  refine ⟨?_, ?_, sendsStep_done _ _, sendsStep_done _ _, sendsStep_done _ _, sendsStep_done _ _,
    sendsStep_done _ _, sendsStep_done _ _, ?_, by simp⟩
  · rintro handled h command hsent
    obtain rfl := Option.some.inj h
    exact Or.inl (Option.some.inj hsent).symm
  · rintro handled h command hsent
    obtain rfl := Option.some.inj h
    exact Or.inr (Option.some.inj hsent).symm
  · show SendsStep (if s.filterText.isEmpty then _ else _)
    split
    · exact sendsStep_done _ _
    · exact sendsStep_done _ _

/-- The bindings of the other tables send nothing. -/
theorem sendsStep_otherKeys (s : TuiState) :
    ∀ kb ∈ SORT_KEYS ++ NAVIGATION_KEYS ++ UNIT_PICKER_KEYS ++
      (QUIT_KEYS ++ HELP_KEYS ++ FILTER_KEYS), SendsStep (kb.action s) := by
  simp only [SORT_KEYS, NAVIGATION_KEYS, UNIT_PICKER_KEYS, QUIT_KEYS, HELP_KEYS, FILTER_KEYS,
    List.cons_append, List.nil_append, List.forall_mem_cons]
  refine ⟨sendsStep_done _ _, sendsStep_applySort s _, sendsStep_applySort s _,
    sendsStep_applySort s _, sendsStep_applySort s _, sendsStep_applySort s _,
    sendsStep_moveCursor s _, sendsStep_moveCursor s _, sendsStep_moveCursor s _,
    sendsStep_moveCursor s _, ?_, sendsStep_done _ _, sendsStep_done _ _, sendsStep_done _ _,
    sendsStep_done _ _, sendsStep_done _ _, sendsStep_done _ _, sendsStep_done _ _,
    sendsStep_done _ _, sendsStep_done _ _, by simp⟩
  rintro handled h
  obtain ⟨unit, -, hunit⟩ := Option.bind_eq_some_iff.mp h
  exact sendsStep_done _ _ handled hunit

/-- **A key sends a step of the interval, if anything.** -/
theorem sendsStep_handleKey (s : TuiState) (key : KeyEvent) : SendsStep (handleKey s key) := by
  rcases handleKey_cases s key with hkey | hkey | ⟨kb, hmem, -, hkey⟩
  · rw [hkey]
    exact sendsStep_filterInput s key
  · rw [hkey]
    exact sendsStep_done _ _
  · rw [hkey]
    have hother := sendsStep_otherKeys s kb
    simp only [List.mem_append] at hother
    rcases mem_keybinds hmem with hmem | hmem | hmem | hmem | hmem
    · exact hother (Or.inl (Or.inl (Or.inl hmem)))
    · exact hother (Or.inl (Or.inl (Or.inr hmem)))
    · exact sendsStep_mainKeys s kb hmem
    · exact hother (Or.inl (Or.inr hmem))
    · simp only [List.mem_append] at hmem
      exact hother (Or.inr hmem)

/-! ### The writes of a run -/

/-- The first command is not sent. -/
def MainPc.Unsent (pc : MainPc) : Prop := pc = .connecting ∨ pc = .cloning ∨ pc = .sending

/-- In the loop, or on the way into it. -/
def MainPc.Loops (pc : MainPc) : Prop :=
  pc = .settingUp ∨ pc = .polling ∨ pc = .drawing ∨ pc = .waiting ∨ pc = .redrawing

namespace ClientProcess

variable {c c' : ClientProcess} {l : ClientStep} {hist : List ClientObs}

/-- **What is on the socket** is what the writes have left there. -/
structure Wrote (c : ClientProcess) (hist : List ClientObs) : Prop where
  wire : c.written = wireOf (wroteOf hist)
  shape : ClientWrites c.firstCommand (wroteOf hist)
  unsent : c.main.Unsent → wroteOf hist = []
  loops : c.main.Loops → ∃ rest, c.firstCommand = .run ∧
    wroteOf hist = (.run, DaemonCommand.run.frame) :: rest ∧ Steps rest

theorem wrote_start (command : Option Command) : (start command).Wrote [] where
  wire := rfl
  shape := Or.inl rfl
  unsent := fun _ => rfl
  loops := by simp [start, MainPc.Loops]

/-- A step that writes nothing. -/
theorem Wrote.quiet (h : c.Wrote hist) {obs : Option ClientObs}
    (hobs : obs.bind ClientObs.wrote? = none) (hcommand : c'.command = c.command)
    (hwritten : c'.written = c.written) (hunsent : c'.main.Unsent → c.main.Unsent)
    (hloops : c'.main.Loops → c.main.Loops) : c'.Wrote (hist ++ obs.toList) := by
  have hsame : wroteOf (hist ++ obs.toList) = wroteOf hist := by
    rw [wroteOf_append]
    cases obs with
    | none => simp [wroteOf]
    | some o =>
      have hnone : o.wrote? = none := hobs
      simp [wroteOf, hnone]
  have hfirst : c'.firstCommand = c.firstCommand := by rw [firstCommand, hcommand]; rfl
  refine ⟨?_, ?_, fun hm => ?_, fun hm => ?_⟩
  · rw [hwritten, hsame]
    exact h.wire
  · rw [hfirst, hsame]
    exact h.shape
  · rw [hsame]
    exact h.unsent (hunsent hm)
  · rw [hfirst, hsame]
    exact h.loops (hloops hm)

/-- **The first command is written.** -/
theorem Wrote.send (h : c.Wrote hist) (hm : c.main = .sending) (accepted : Option ℕ) :
    (c.send accepted).Wrote (hist ++ (c.obs (.send accepted)).toList) := by
  have hnone : wroteOf hist = [] := h.unsent (Or.inr (Or.inr hm))
  have hwire : c.written = [] := by rw [h.wire, hnone]; rfl
  obtain ⟨hpre, hwhole⟩ := sendDaemonCommand_cases c.firstCommand accepted
  obtain ⟨bytes, ok, hsent, hcases⟩ := c.send_cases accepted
  rw [hsent] at hpre hwhole
  have hwrites : wroteOf (hist ++ (c.obs (.send accepted)).toList) = [(c.firstCommand, bytes)] := by
    rw [wroteOf_append, hnone, obs, hsent]
    rfl
  have hsocket : c.written ++ bytes = wireOf [(c.firstCommand, bytes)] := by
    rw [hwire, wireOf_cons, List.nil_append]
    exact (List.append_nil bytes).symm
  rcases hcases with ⟨-, hsend⟩ | ⟨-, -, hsend⟩ | ⟨rfl, hbrief, hsend⟩
  · rw [hsend]
    refine ⟨by rw [hwrites]; exact hsocket, by rw [hwrites]; exact Or.inr (Or.inl ⟨_, rfl, hpre⟩),
      by simp [ret, MainPc.Unsent], by simp [ret, MainPc.Loops]⟩
  · rw [hsend]
    refine ⟨by rw [hwrites]; exact hsocket, by rw [hwrites]; exact Or.inr (Or.inl ⟨_, rfl, hpre⟩),
      by simp [ret, MainPc.Unsent], by simp [ret, MainPc.Loops]⟩
  · have hrun : c.firstCommand = .run := by
      unfold firstCommand
      split
      · exact absurd ⟨_, ‹_›⟩ hbrief
      · rfl
      · rfl
    rw [hsend]
    refine ⟨by rw [hwrites]; exact hsocket, by rw [hwrites]; exact Or.inr (Or.inl ⟨_, rfl, hpre⟩),
      by simp [MainPc.Unsent], fun _ => ⟨[], hrun, ?_, by simp [Steps]⟩⟩
    have hbytes : bytes = c.firstCommand.frame := hwhole rfl
    rw [hwrites, hbytes, hrun]

/-- **A key is handled**, and its command written. -/
theorem Wrote.press (h : c.Wrote hist) (hm : c.main = .waiting) {ev : TermEvent} {key : KeyEvent}
    (hev : ev.pressed = some key) (accepted : Option ℕ) :
    (c.press key accepted).Wrote (hist ++ (c.obs (.event (some ev) accepted)).toList) := by
  have hobs : c.obs (.event (some ev) accepted) = (handleKey c.state key).bind fun handled =>
      handled.sent.map fun command =>
        .wrote command (sendDaemonCommand command accepted).1 := by
    rw [obs, Option.bind_some, hev, Option.bind_some]
  have hunsent : ¬ (c.press key accepted).main.Unsent := by
    obtain ⟨-, -, -, -, hmain⟩ := c.press_frame key accepted
    rcases hmain with hmain | hmain | hmain | hmain <;> simp [hmain, MainPc.Unsent]
  have hloops : c.main.Loops := Or.inr (Or.inr (Or.inr (Or.inl hm)))
  rw [hobs]
  rcases hhandled : handleKey c.state key with _ | ⟨state, action, sent⟩
  · refine h.quiet rfl ?_ ?_ (fun hm => absurd hm hunsent) fun _ => hloops
    · simp only [ClientProcess.press, hhandled]
    · simp only [ClientProcess.press, hhandled]
  · have hcommand : (c.press key accepted).command = c.command := by
      simp only [ClientProcess.press, hhandled]
      cases action <;> rfl
    have hwritten : (c.press key accepted).written = c.written ++
        (sent.map fun command => (sendDaemonCommand command accepted).1).getD [] := by
      simp only [ClientProcess.press, hhandled]
      cases action <;> rfl
    cases sent with
    | none =>
      refine h.quiet rfl hcommand ?_ (fun hm => absurd hm hunsent) fun _ => hloops
      rw [hwritten]
      exact List.append_nil _
    | some command =>
      obtain ⟨rest, hrun, hwrites, hsteps⟩ := h.loops hloops
      have hfirst : (c.press key accepted).firstCommand = .run := by
        rw [← hrun, firstCommand, hcommand]
        rfl
      have htorn := (sendDaemonCommand_cases command accepted).1
      -- One more write of the command of a key.
      have hmore : Steps (rest ++ [(command, (sendDaemonCommand command accepted).1)]) := by
        intro w hw
        rcases List.mem_append.mp hw with hw | hw
        · exact hsteps w hw
        · obtain rfl := List.mem_singleton.mp hw
          exact ⟨sendsStep_handleKey _ _ _ hhandled command rfl, htorn⟩
      have hwrites' : wroteOf (hist ++ [.wrote command (sendDaemonCommand command accepted).1]) =
          (.run, DaemonCommand.run.frame) ::
            (rest ++ [(command, (sendDaemonCommand command accepted).1)]) := by
        rw [wroteOf_append, hwrites]
        rfl
      simp only [Option.bind_some, Option.map_some, Option.toList_some]
      refine ⟨?_, ?_, fun hm => absurd hm hunsent, fun _ => ⟨_, hfirst, hwrites', hmore⟩⟩
      · rw [hwritten, h.wire, wroteOf_append, wireOf_append]
        simp [wroteOf, ClientObs.wrote?, wireOf]
      · rw [hwrites', hfirst]
        exact Or.inr (Or.inr ⟨_, rfl, rfl, hmore⟩)

/-- **Every step writes what it is observed to write.** -/
theorem Wrote.step (h : c.Wrote hist) (hstep : c.step l = some c') :
    c'.Wrote (hist ++ (c.obs l).toList) := by
  rcases step_cases hstep with ⟨main, source, hl, hmain, rfl⟩ | ⟨accepted, rfl, hm, rfl⟩ |
    ⟨ok, rfl, hm, rfl⟩ | ⟨reader, rfl, hr, rfl⟩ | ⟨rfl, hm, rfl⟩ | ⟨height, main, rfl, rfl, hm⟩ |
    ⟨ev, key, accepted, rfl, hm, hev, rfl⟩ | ⟨⟨ev, accepted, rfl, hev⟩, hm, rfl⟩ | ⟨err, hl, rfl⟩
  · have hobs : c.obs l = none := by
      rcases hl with ⟨⟨source, rfl⟩, -⟩ | ⟨⟨ok, rfl⟩, -, -⟩ <;> rfl
    have hunsent : c.main.Unsent := by
      rcases hl with ⟨-, hm⟩ | ⟨-, hm, -⟩ <;> simp [MainPc.Unsent, hm]
    rw [hobs]
    refine h.quiet rfl rfl rfl (fun _ => hunsent) fun hloops => ?_
    rcases hmain with rfl | rfl | ⟨err, rfl, -⟩ <;> simp [MainPc.Loops] at hloops
  · exact h.send hm accepted
  · have hsame : (c.tuiNew ok).command = c.command ∧ (c.tuiNew ok).written = c.written ∧
        ¬ (c.tuiNew ok).main.Unsent := by
      cases ok <;> exact ⟨rfl, rfl, by simp [tuiNew, MainPc.Unsent]⟩
    exact h.quiet rfl hsame.1 hsame.2.1 (fun hm => absurd hm hsame.2.2) fun _ => Or.inl hm
  · obtain ⟨hmain, -, -, hcommand, hwritten⟩ := c.receive_frame reader
    have hobs : (c.obs .receive).bind ClientObs.wrote? = none := by
      rw [obs, hr]
      simp only
      split
      · split <;> rfl
      · rfl
    exact h.quiet hobs hcommand hwritten (by rw [hmain]; exact id) (by rw [hmain]; exact id)
  · have hloops : c.main.Loops := Or.inr (Or.inl hm)
    have hobs : (c.obs .tryRecv).bind ClientObs.wrote? = none := by
      rw [obs]
      cases c.channel.head? <;> rfl
    obtain ⟨hmain, hcommand, hwritten⟩ := tryRecv_frame hm
    have hunsent : ¬ c.tryRecv.main.Unsent := by
      rcases hmain with hmain | hmain | hmain <;> simp [hmain, MainPc.Unsent]
    exact h.quiet hobs hcommand hwritten (fun hm => absurd hm hunsent) fun _ => hloops
  · have hloops : c.main.Loops := by
      rcases hm with ⟨hm, -⟩ | ⟨hm, -⟩ <;> simp [hm, MainPc.Loops]
    obtain ⟨hmain, hcommand, hwritten⟩ := c.draw_frame height main
    have hunsent : ¬ (c.draw height main).main.Unsent := by
      rcases hm with ⟨-, rfl⟩ | ⟨-, rfl⟩
      · rcases hmain with hmain | hmain <;> simp [hmain, MainPc.Unsent]
      · rcases hmain with hmain | hmain <;> simp [hmain, MainPc.Unsent]
    exact h.quiet rfl hcommand hwritten (fun hm => absurd hm hunsent) fun _ => hloops
  · exact h.press hm hev accepted
  · have hobs : c.obs (.event (some ev) accepted) = none := by
      rw [obs, Option.bind_some, hev]
      rfl
    rw [hobs]
    exact h.quiet rfl rfl rfl (by simp [MainPc.Unsent]) fun _ =>
      Or.inr (Or.inr (Or.inr (Or.inl hm)))
  · have hobs : (c.obs l).bind ClientObs.wrote? = none := by
      rcases hl with ⟨rfl, -⟩ | ⟨accepted, rfl, -⟩ <;> rfl
    exact h.quiet hobs rfl rfl (by simp [ret, MainPc.Unsent]) (by simp [ret, MainPc.Loops])

/-- **What is on the socket, over whole runs.** -/
theorem wrote_exec {command : Option Command} {ls : List ClientStep}
    (h : exec ClientProcess.step (start command) ls = some c) : c.Wrote (history command ls) := by
  exact exec_observe (C := fun _ _ => True) (R := Wrote)
    (fun _ _ _ _ _ hw hstep => hw.step hstep) (meets_of_forall (fun _ _ => trivial) _ _)
    (wrote_start command) h

/-! ### A command of the command line -/

/-- **A client with a command of the command line** sends it, and is at its end. -/
structure OneShot (command : DaemonCommand) (c : ClientProcess) : Prop where
  single : c.command = some (.daemon command)
  receiver : c.receiver = .unspawned
  main : c.main.Unsent ∧ c.written = [] ∨ (∃ err, c.main = .returned (.error err)) ∨
    c.main = .returned (.ok ()) ∧ c.written = command.frame

theorem OneShot.step {command : DaemonCommand} (h : c.OneShot command)
    (hstep : c.step l = some c') : c'.OneShot command := by
  have hloops : ¬ c.main.Loops := by
    rcases h.main with ⟨hm | hm | hm, -⟩ | ⟨err, hm⟩ | ⟨hm, -⟩ <;> simp [hm, MainPc.Loops]
  rcases step_cases hstep with ⟨main, source, hl, hmain, rfl⟩ | ⟨accepted, rfl, hm, rfl⟩ |
    ⟨ok, rfl, hm, rfl⟩ | ⟨reader, rfl, hr, rfl⟩ | ⟨rfl, hm, rfl⟩ | ⟨height, main, rfl, rfl, hm⟩ |
    ⟨ev, key, accepted, rfl, hm, hev, rfl⟩ | ⟨⟨ev, accepted, rfl, hev⟩, hm, rfl⟩ | ⟨err, hl, rfl⟩
  · have hwritten : c.written = [] := by
      have hunsent : c.main = .connecting ∨ c.main = .cloning := by
        rcases hl with ⟨-, hm⟩ | ⟨-, hm, -⟩
        · exact Or.inl hm
        · exact Or.inr hm
      rcases h.main with ⟨-, hwritten⟩ | ⟨err, hm⟩ | ⟨hm, -⟩
      · exact hwritten
      · rcases hunsent with hunsent | hunsent <;> cases hunsent.symm.trans hm
      · rcases hunsent with hunsent | hunsent <;> cases hunsent.symm.trans hm
    refine ⟨h.single, h.receiver, ?_⟩
    rcases hmain with rfl | rfl | ⟨err, rfl, -⟩
    · exact Or.inl ⟨Or.inr (Or.inl rfl), hwritten⟩
    · exact Or.inl ⟨Or.inr (Or.inr rfl), hwritten⟩
    · exact Or.inr (Or.inl ⟨err, rfl⟩)
  · have hwritten : c.written = [] := by
      rcases h.main with ⟨-, hwritten⟩ | ⟨err, hm'⟩ | ⟨hm', -⟩
      · exact hwritten
      · cases hm.symm.trans hm'
      · cases hm.symm.trans hm'
    have hfirst : c.firstCommand = command := by rw [firstCommand, h.single]
    have hwhole := (sendDaemonCommand_cases c.firstCommand accepted).2
    obtain ⟨bytes, ok, hsent, ⟨-, hsend⟩ | ⟨rfl, -, hsend⟩ | ⟨-, hbrief, -⟩⟩ :=
      c.send_cases accepted
    · rw [hsend]
      exact ⟨h.single, h.receiver, Or.inr (Or.inl ⟨_, rfl⟩)⟩
    · rw [hsent, hfirst] at hwhole
      rw [hsend]
      refine ⟨h.single, h.receiver, Or.inr (Or.inr ⟨rfl, ?_⟩)⟩
      show c.written ++ bytes = command.frame
      rw [hwritten, List.nil_append]
      exact hwhole rfl
    · exact absurd ⟨command, h.single⟩ hbrief
  · exact absurd (Or.inl hm) hloops
  · cases hr.symm.trans h.receiver
  · exact absurd (Or.inr (Or.inl hm)) hloops
  · refine absurd ?_ hloops
    rcases hm with ⟨hm, -⟩ | ⟨hm, -⟩ <;> simp [hm, MainPc.Loops]
  · exact absurd (Or.inr (Or.inr (Or.inr (Or.inl hm)))) hloops
  · exact absurd (Or.inr (Or.inr (Or.inr (Or.inl hm)))) hloops
  · exact ⟨h.single, h.receiver, Or.inr (Or.inl ⟨_, rfl⟩)⟩

theorem oneShot_exec {command : DaemonCommand} {ls : List ClientStep}
    (h : exec ClientProcess.step (start (some (.daemon command))) ls = some c) :
    c.OneShot command :=
  exec_invariant (I := OneShot command) (fun _ _ _ hc hs => hc.step hs)
    ⟨rfl, rfl, Or.inl ⟨Or.inl rfl, rfl⟩⟩ h

end ClientProcess

end Procnet
