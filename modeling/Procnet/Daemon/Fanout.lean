import Procnet.Lib.Trace

/-!
# The clients of a daemon

What `procnetd/src/server.rs` does to hand snapshots out. Each streaming client has a thread, a
channel with room for `CHANNEL_BOUND` frames, and a socket. `update_streams` offers a snapshot
to the channels of all registered clients, one after the other and without waiting, and removes
the senders whose receivers are gone; the thread of a client writes to the socket what it finds
in its channel, until a write fails.

A `Connection` is one client: its channel, its threads, its socket, and the other end of it. A
`Fanout` is all of them, with the list of senders. Any interleaving of the threads is a run of
`Fanout.step`: a write can be cut anywhere, and the channels are read while `update_streams`
goes through them.

What a client can notice of a run is a run of its own `View` (`exec_view`): the steps of the
other clients leave no trace there. The results on a single client, in
`Procnet.Daemon.Delivery` and `Procnet.Daemon.Hangup`, are proved on views.
-/

namespace Procnet

open Lib

/-- Frames that a client's channel has room for. -/
def CHANNEL_BOUND : ℕ := 4

/-! ### A connection -/

/-- Where the thread that serves a connection is. -/
inductive Writer where
  /-- It clones the stream and reads the initial command. -/
  | initial : Writer
  /-- It has spawned the thread that reads commands; the write timeout is to be set. -/
  | arming : Writer
  /-- It has made the channel; the sender is to be registered. -/
  | joining : Writer
  /-- In `recv`. -/
  | waiting : Writer
  /-- In `write_all`, with some bytes left. -/
  | writing (rest : List UInt8) : Writer
  /-- Out of the loop; the receiver is to be dropped. -/
  | leaving : Writer
  /-- The stream is to be dropped. -/
  | closing : Writer
  | ended : Writer
  deriving DecidableEq, Repr

namespace Writer

/-- In `write_all` with the given bytes left, which returns if there are none. -/
def sending (rest : List UInt8) : Writer := if rest = [] then waiting else writing rest

/-- The sender has not been registered yet. -/
def Starting (w : Writer) : Prop := w = initial ∨ w = arming ∨ w = joining

/-- In the loop. -/
def Serves (w : Writer) : Prop := w = waiting ∨ ∃ rest, w = writing rest

/-- The receiver has been dropped. -/
def Dropped (w : Writer) : Prop := w = closing ∨ w = ended

/-- Out of the loop for good. -/
def Left (w : Writer) : Prop := w = leaving ∨ w.Dropped

instance (w : Writer) : Decidable w.Starting := by unfold Starting; infer_instance

instance (w : Writer) : Decidable w.Dropped := by unfold Dropped; infer_instance

instance (w : Writer) : Decidable w.Left := by unfold Left; infer_instance

theorem Dropped.left {w : Writer} (h : w.Dropped) : w.Left := Or.inr h

theorem serves_sending (rest : List UInt8) : (sending rest).Serves := by
  by_cases h : rest = []
  · exact Or.inl (if_pos h)
  · exact Or.inr ⟨rest, if_neg h⟩

/-- A thread in the loop is neither before nor after it. -/
theorem Serves.not_starting_not_left {w : Writer} (h : w.Serves) : ¬ w.Starting ∧ ¬ w.Left := by
  rcases h with rfl | ⟨rest, rfl⟩ <;> simp [Starting, Left, Dropped]

theorem Starting.not_serves_not_left {w : Writer} (h : w.Starting) : ¬ w.Serves ∧ ¬ w.Left := by
  rcases h with rfl | rfl | rfl <;> simp [Serves, Left, Dropped]

end Writer

/-- Where the client is. -/
inductive Client where
  /-- Its reader thread waits for the next message. -/
  | reading : Client
  /-- It has seen the end of the stream, and has reported `DaemonHangup`. -/
  | hungUp : Client
  /-- It has closed its end by itself. -/
  | gone : Client
  deriving DecidableEq, Repr

/-- What a `try_send` returns. -/
inductive TrySend where
  | ok : TrySend
  | full : TrySend
  | disconnected : TrySend
  deriving DecidableEq, Repr

/-- The connection of a client. -/
structure Connection where
  /-- The frames in the channel. -/
  queue : List (List UInt8)
  writer : Writer
  /-- Whether the clone of the stream is held: before `run` by the same thread, then by the one
  that reads commands. -/
  clone : Bool
  /-- What has been written to the socket. -/
  wire : List UInt8
  /-- How much of it the client has read. -/
  taken : ℕ
  client : Client
  deriving DecidableEq, Repr

/-- What the threads of a connection and its client can do on their own. -/
inductive ConnStep where
  /-- The initial command has been read; or the connection is given up before that, or ends
  with another command. -/
  | command (run : Bool) : ConnStep
  /-- `set_write_timeout` returns. -/
  | arm (ok : Bool) : ConnStep
  /-- `recv` takes a frame out of the channel. -/
  | recv : ConnStep
  /-- The socket accepts some bytes. -/
  | write (n : ℕ) : ConnStep
  /-- `write_all` fails. -/
  | fail : ConnStep
  | dropReceiver : ConnStep
  | dropStream : ConnStep
  /-- The thread that reads commands ends: at the end of the stream, or on an error. -/
  | readerExit (eof : Bool) : ConnStep
  /-- The client reads some bytes. -/
  | clientRead (n : ℕ) : ConnStep
  /-- The client finds the end of the stream. -/
  | clientEof : ConnStep
  /-- The client closes its end. -/
  | clientClose : ConnStep
  deriving DecidableEq, Repr

namespace Connection

/-- A connection that has just been accepted. -/
def new : Connection := ⟨[], .initial, true, [], 0, .reading⟩

/-- The descriptors of the socket that the daemon holds. -/
def descriptors (c : Connection) : ℕ :=
  (if c.writer = .ended then 0 else 1) + (if c.clone then 1 else 0)

/-- `try_send` on the sender of the channel. -/
def trySend (c : Connection) (bytes : List UInt8) : TrySend × Connection :=
  if c.writer.Dropped then (.disconnected, c)
  else if c.queue.length < CHANNEL_BOUND then (.ok, { c with queue := c.queue ++ [bytes] })
  else (.full, c)

/-- One step of a connection. -/
def step (c : Connection) (l : ConnStep) : Option Connection :=
  match l, c.writer with
  | .command true, .initial => some { c with writer := .arming }
  | .command false, .initial => some { c with writer := .closing, clone := false }
  | .arm true, .arming => some { c with writer := .joining }
  | .arm false, .arming => some { c with writer := .closing }
  | .recv, .waiting =>
    match c.queue with
    | [] => none
    | data :: queue => some { c with queue, writer := .sending data }
  | .write n, .writing rest =>
    if 0 < n ∧ n ≤ rest.length ∧ c.client = .reading then
      some { c with wire := c.wire ++ rest.take n, writer := .sending (rest.drop n) }
    else none
  | .fail, .writing _ => some { c with writer := .leaving }
  -- The frames that are still in the channel are dropped with it.
  | .dropReceiver, .leaving => some { c with writer := .closing, queue := [] }
  | .dropStream, .closing => some { c with writer := .ended }
  | .readerExit eof, w =>
    if w ≠ .initial ∧ c.clone ∧ (eof → c.client ≠ .reading) then some { c with clone := false }
    else none
  | .clientRead n, _ =>
    if c.client = .reading ∧ c.taken + n ≤ c.wire.length then some { c with taken := c.taken + n }
    else none
  | .clientEof, _ =>
    if c.client = .reading ∧ c.taken = c.wire.length ∧ c.descriptors = 0 then
      some { c with client := .hungUp }
    else none
  | .clientClose, _ => if c.client = .reading then some { c with client := .gone } else none
  | _, _ => none

variable {c c' : Connection} {l : ConnStep} {bytes : List UInt8}

/-- **What a step of a connection can do** to its thread, channel and socket. -/
theorem step_cases (h : c.step l = some c') :
    (c'.writer = c.writer ∧ c'.queue = c.queue ∧ c'.wire = c.wire) ∨
    ((c.writer = .initial ∧ (c'.writer = .arming ∨ c'.writer = .closing) ∨
      c.writer = .arming ∧ (c'.writer = .joining ∨ c'.writer = .closing)) ∧
      c'.queue = c.queue ∧ c'.wire = c.wire) ∨
    (∃ data, c.writer = .waiting ∧ c.queue = data :: c'.queue ∧ c'.writer = .sending data ∧
      c'.wire = c.wire) ∨
    (∃ rest n, c.writer = .writing rest ∧ 0 < n ∧ n ≤ rest.length ∧ c'.queue = c.queue ∧
      c'.writer = .sending (rest.drop n) ∧ c'.wire = c.wire ++ rest.take n) ∨
    (∃ rest, c.writer = .writing rest ∧ c'.writer = .leaving ∧ c'.queue = c.queue ∧
      c'.wire = c.wire) ∨
    (c.writer = .leaving ∧ c'.writer = .closing ∧ c'.queue = [] ∧ c'.wire = c.wire) ∨
    (c.writer = .closing ∧ c'.writer = .ended ∧ c'.queue = c.queue ∧ c'.wire = c.wire) := by
  unfold step at h
  split at h
  case h_1 hw => obtain rfl := Option.some.inj h; simp [hw]
  case h_2 hw => obtain rfl := Option.some.inj h; simp [hw]
  case h_3 hw => obtain rfl := Option.some.inj h; simp [hw]
  case h_4 hw => obtain rfl := Option.some.inj h; simp [hw]
  case h_5 hw =>
    cases hq : c.queue with
    | nil => simp [hq] at h
    | cons data queue =>
      rw [hq] at h
      obtain rfl := Option.some.inj h
      exact Or.inr (Or.inr (Or.inl ⟨data, hw, rfl, rfl, rfl⟩))
  case h_6 n rest hw =>
    split at h
    case isTrue hn =>
      obtain rfl := Option.some.inj h
      exact Or.inr (Or.inr (Or.inr (Or.inl ⟨rest, n, hw, hn.1, hn.2.1, rfl, rfl, rfl⟩)))
    case isFalse => cases h
  case h_7 rest hw =>
    obtain rfl := Option.some.inj h
    exact Or.inr (Or.inr (Or.inr (Or.inr (Or.inl ⟨rest, hw, rfl, rfl, rfl⟩))))
  case h_8 hw => obtain rfl := Option.some.inj h; simp [hw]
  case h_9 hw => obtain rfl := Option.some.inj h; simp [hw]
  all_goals
    -- The other steps are of the other thread, or of the client.
    first
    | cases h
    | split at h
      · obtain rfl := Option.some.inj h
        exact Or.inl ⟨rfl, rfl, rfl⟩
      · cases h

/-- **What `try_send` can do.** -/
theorem trySend_cases (c : Connection) (bytes : List UInt8) :
    (c.writer.Dropped ∧ c.trySend bytes = (.disconnected, c)) ∨
    (¬ c.writer.Dropped ∧ c.queue.length < CHANNEL_BOUND ∧
      c.trySend bytes = (.ok, { c with queue := c.queue ++ [bytes] })) ∨
    (¬ c.writer.Dropped ∧ CHANNEL_BOUND ≤ c.queue.length ∧ c.trySend bytes = (.full, c)) := by
  unfold trySend
  by_cases hdropped : c.writer.Dropped
  · exact Or.inl ⟨hdropped, by rw [if_pos hdropped]⟩
  · by_cases hroom : c.queue.length < CHANNEL_BOUND
    · exact Or.inr (Or.inl ⟨hdropped, hroom, by rw [if_neg hdropped, if_pos hroom]⟩)
    · exact Or.inr (Or.inr ⟨hdropped, Nat.le_of_not_lt hroom, by
        rw [if_neg hdropped, if_neg hroom]⟩)

/-- `try_send` changes nothing but the channel. -/
theorem trySend_frame (c : Connection) (bytes : List UInt8) :
    ∃ queue, (c.trySend bytes).2 = { c with queue } := by
  rcases c.trySend_cases bytes with ⟨-, hsend⟩ | ⟨-, -, hsend⟩ | ⟨-, -, hsend⟩ <;>
    exact ⟨_, by rw [hsend]⟩

end Connection

/-! ### All connections -/

/-- The list of senders, by the numbers of their connections, in the order of their
registration. -/
inductive Senders where
  | unlocked (senders : List ℕ) : Senders
  /-- Locked by `update_streams`, which has kept some of them and has others to visit. -/
  | retain (bytes : List UInt8) (kept todo : List ℕ) : Senders
  deriving DecidableEq, Repr

/-- The senders in the list. -/
def Senders.all : Senders → List ℕ
  | .unlocked senders => senders
  | .retain _ kept todo => kept ++ todo

/-- The connections accepted so far, and the list of senders. -/
structure Fanout where
  conns : List Connection
  senders : Senders
  deriving DecidableEq, Repr

/-- What can happen next; `i` is the number of a connection. -/
inductive FanoutStep where
  | accept (i : ℕ) : FanoutStep
  | conn (i : ℕ) (l : ConnStep) : FanoutStep
  /-- The sender is pushed to the list, unless its mutex is poisoned. -/
  | join (i : ℕ) (ok : Bool) : FanoutStep
  /-- `recv` fails: the channel is empty and its sender is gone. -/
  | starve (i : ℕ) : FanoutStep
  /-- `update_streams` locks the list. -/
  | broadcast (bytes : List UInt8) : FanoutStep
  /-- `retain` visits a sender. -/
  | offer (i : ℕ) : FanoutStep
  /-- `update_streams` returns. -/
  | finish : FanoutStep
  deriving DecidableEq, Repr

namespace Fanout

/-- The daemon before it accepts any connection. -/
def new : Fanout := ⟨[], .unlocked []⟩

/-- One step of the daemon or of a client. -/
def step (s : Fanout) : FanoutStep → Option Fanout
  | .accept i => if i = s.conns.length then some { s with conns := s.conns ++ [.new] } else none
  | .conn i l =>
    s.conns[i]?.bind fun c => (c.step l).map fun c' => { s with conns := s.conns.set i c' }
  | .join i ok =>
    match s.conns[i]?, s.senders with
    | some c, .unlocked senders =>
      if c.writer ≠ .joining then none
      else if ok then
        some ⟨s.conns.set i { c with writer := .waiting }, .unlocked (senders ++ [i])⟩
      else some { s with conns := s.conns.set i { c with writer := .leaving } }
    | _, _ => none
  | .starve i =>
    s.conns[i]?.bind fun c =>
      if c.writer = .waiting ∧ c.queue = [] ∧ i ∉ s.senders.all then
        some { s with conns := s.conns.set i { c with writer := .leaving } }
      else none
  | .broadcast bytes =>
    match s.senders with
    | .unlocked senders => some { s with senders := .retain bytes [] senders }
    | .retain _ _ _ => none
  | .offer i =>
    match s.conns[i]?, s.senders with
    | some c, .retain bytes kept (j :: todo) =>
      if j ≠ i then none
      else
        match c.trySend bytes with
        | (.disconnected, _) => some { s with senders := .retain bytes kept todo }
        | (_, c') => some ⟨s.conns.set i c', .retain bytes (kept ++ [i]) todo⟩
    | _, _ => none
  | .finish =>
    match s.senders with
    | .retain _ kept [] => some { s with senders := .unlocked kept }
    | _ => none

end Fanout

/-! ### What one client notices -/

/-- What a client notices of the daemon: its connection, and how often its sender is in the
list. -/
structure View where
  conn : Option Connection
  kept : ℕ
  /-- The snapshot that `update_streams` hands out, and how often the sender is among those still
  to be visited. -/
  pass : Option (List UInt8 × ℕ)
  deriving DecidableEq, Repr

/-- What can happen to a client. -/
inductive ViewStep where
  | accept : ViewStep
  | conn (l : ConnStep) : ViewStep
  | join (ok : Bool) : ViewStep
  | starve : ViewStep
  | broadcast (bytes : List UInt8) : ViewStep
  | offer : ViewStep
  | finish : ViewStep
  deriving DecidableEq, Repr

/-- What a client notices of a step: those of the other clients are none of its business. -/
def FanoutStep.seenBy (i : ℕ) : FanoutStep → Option ViewStep
  | .accept j => if j = i then some .accept else none
  | .conn j l => if j = i then some (.conn l) else none
  | .join j ok => if j = i then some (.join ok) else none
  | .starve j => if j = i then some .starve else none
  | .broadcast bytes => some (.broadcast bytes)
  | .offer j => if j = i then some .offer else none
  | .finish => some .finish

/-- What a client notices of a state. -/
def Fanout.view (i : ℕ) (s : Fanout) : View where
  conn := s.conns[i]?
  kept :=
    match s.senders with
    | .unlocked senders => senders.count i
    | .retain _ kept _ => kept.count i
  pass :=
    match s.senders with
    | .unlocked _ => none
    | .retain bytes _ todo => some (bytes, todo.count i)

namespace View

/-- The view before the client connects. -/
def new : View := ⟨none, 0, none⟩

/-- How often the sender is in the list. -/
def listed (v : View) : ℕ := v.kept + (v.pass.map Prod.snd).getD 0

/-- One step of a client, or of the daemon. -/
def step (v : View) : ViewStep → Option View
  | .accept => if v.conn = none then some { v with conn := some .new } else none
  | .conn l => v.conn.bind fun c => (c.step l).map fun c' => { v with conn := some c' }
  | .join ok =>
    match v.conn, v.pass with
    | some c, none =>
      if c.writer ≠ .joining then none
      else if ok then some ⟨some { c with writer := .waiting }, v.kept + 1, none⟩
      else some { v with conn := some { c with writer := .leaving } }
    | _, _ => none
  | .starve =>
    v.conn.bind fun c =>
      if c.writer = .waiting ∧ c.queue = [] ∧ v.listed = 0 then
        some { v with conn := some { c with writer := .leaving } }
      else none
  | .broadcast bytes =>
    match v.pass with
    | none => some { v with kept := 0, pass := some (bytes, v.kept) }
    | some _ => none
  | .offer =>
    match v.conn, v.pass with
    | some c, some (bytes, todo + 1) =>
      match c.trySend bytes with
      | (.disconnected, _) => some { v with pass := some (bytes, todo) }
      | (_, c') => some ⟨some c', v.kept + 1, some (bytes, todo)⟩
    | _, _ => none
  | .finish =>
    match v.pass with
    | some (_, 0) => some { v with pass := none }
    | _ => none

/-- **What a step can do to a view.** -/
theorem step_cases {v v' : View} {l : ViewStep} (h : v.step l = some v') :
    (l = .accept ∧ v.conn = none ∧ v' = { v with conn := some .new }) ∨
    (∃ m c c', l = .conn m ∧ v.conn = some c ∧ c.step m = some c' ∧
      v' = { v with conn := some c' }) ∨
    (∃ c, (l = .join false ∧ c.writer = .joining ∨ l = .starve ∧ c.writer = .waiting) ∧
      v.conn = some c ∧ v' = { v with conn := some { c with writer := .leaving } }) ∨
    (∃ c, l = .join true ∧ v.conn = some c ∧ c.writer = .joining ∧ v.pass = none ∧
      v' = ⟨some { c with writer := .waiting }, v.kept + 1, none⟩) ∨
    (∃ bytes, l = .broadcast bytes ∧ v.pass = none ∧
      v' = { v with kept := 0, pass := some (bytes, v.kept) }) ∨
    (∃ c bytes todo, l = .offer ∧ v.conn = some c ∧ v.pass = some (bytes, todo + 1) ∧
      (c.writer.Dropped ∧ v' = { v with pass := some (bytes, todo) } ∨
        ¬ c.writer.Dropped ∧
          v' = ⟨some (c.trySend bytes).2, v.kept + 1, some (bytes, todo)⟩)) ∨
    (∃ bytes, l = .finish ∧ v.pass = some (bytes, 0) ∧ v' = { v with pass := none }) := by
  cases l with
  | accept =>
    obtain ⟨hconn, rfl⟩ : v.conn = none ∧ { v with conn := some .new } = v' := by
      simpa [step] using h
    exact Or.inl ⟨rfl, hconn, rfl⟩
  | conn m =>
    obtain ⟨c, hc, c', hc', rfl⟩ : ∃ c, v.conn = some c ∧ ∃ c', c.step m = some c' ∧
        { v with conn := some c' } = v' := by
      simpa [step, Option.bind_eq_some_iff] using h
    exact Or.inr (Or.inl ⟨m, c, c', rfl, hc, hc', rfl⟩)
  | join ok =>
    simp only [step] at h
    split at h
    case h_2 => cases h
    case h_1 c hc hpass =>
      by_cases hw : c.writer = .joining
      · cases ok with
        | true =>
          obtain rfl : _ = v' := by simpa [hw] using h
          exact Or.inr (Or.inr (Or.inr (Or.inl ⟨c, rfl, hc, hw, hpass, rfl⟩)))
        | false =>
          obtain rfl : _ = v' := by simpa [hw] using h
          exact Or.inr (Or.inr (Or.inl ⟨c, Or.inl ⟨rfl, hw⟩, hc, rfl⟩))
      · simp [hw] at h
  | starve =>
    obtain ⟨c, hc, hif⟩ := Option.bind_eq_some_iff.mp h
    obtain ⟨hw, rfl⟩ : _ ∧ _ = v' := by
      simpa only [Option.ite_none_right_eq_some, Option.some.injEq] using hif
    exact Or.inr (Or.inr (Or.inl ⟨c, Or.inr ⟨rfl, hw.1⟩, hc, rfl⟩))
  | broadcast bytes =>
    simp only [step] at h
    split at h
    case h_1 hpass =>
      obtain rfl := Option.some.inj h
      exact Or.inr (Or.inr (Or.inr (Or.inr (Or.inl ⟨bytes, rfl, hpass, rfl⟩))))
    case h_2 => cases h
  | offer =>
    simp only [step] at h
    split at h
    case h_2 => cases h
    case h_1 c bytes todo hc hpass =>
      refine Or.inr (Or.inr (Or.inr (Or.inr (Or.inr (Or.inl
        ⟨c, bytes, todo, rfl, hc, hpass, ?_⟩)))))
      rcases c.trySend_cases bytes with ⟨hdropped, hsend⟩ | ⟨hdropped, -, hsend⟩ |
        ⟨hdropped, -, hsend⟩
      all_goals
        rw [hsend] at h
        obtain rfl := Option.some.inj h
      · exact Or.inl ⟨hdropped, rfl⟩
      · exact Or.inr ⟨hdropped, by rw [hsend]⟩
      · exact Or.inr ⟨hdropped, by rw [hsend]⟩
  | finish =>
    simp only [step] at h
    split at h
    case h_1 bytes hpass =>
      obtain rfl := Option.some.inj h
      exact Or.inr (Or.inr (Or.inr (Or.inr (Or.inr (Or.inr ⟨bytes, rfl, hpass, rfl⟩)))))
    case h_2 => cases h

end View

namespace Fanout

variable {s s' : Fanout} {l : FanoutStep} {i : ℕ}

@[simp] theorem view_new (i : ℕ) : new.view i = .new := rfl

@[simp] theorem view_conn (i : ℕ) (s : Fanout) : (s.view i).conn = s.conns[i]? := rfl

/-- The view of one client when another one's connection changes. -/
theorem view_set_of_ne {j : ℕ} (h : j ≠ i) (s : Fanout) (c : Connection) :
    ({ s with conns := s.conns.set j c } : Fanout).view i = s.view i := by
  simp only [view, List.getElem?_set_ne h]

theorem listed_view (i : ℕ) (s : Fanout) : (s.view i).listed = s.senders.all.count i := by
  unfold View.listed view Senders.all
  cases s.senders with
  | unlocked senders => rfl
  | retain bytes kept todo => simp

/-- **A step of the daemon is, to a client, a step of its view or none.** -/
theorem step_view (i : ℕ) (h : s.step l = some s') :
    exec View.step (s.view i) (l.seenBy i).toList = some (s'.view i) := by
  cases l with
  | accept j =>
    obtain ⟨rfl, rfl⟩ : j = s.conns.length ∧ { s with conns := s.conns ++ [.new] } = s' := by
      simpa [step] using h
    rcases eq_or_ne s.conns.length i with rfl | hj
    · simp [FanoutStep.seenBy, exec_cons, View.step, view]
    · -- The connections that are there keep their numbers.
      have hconn : (s.conns ++ [Connection.new])[i]? = s.conns[i]? := by
        rcases Nat.lt_or_gt_of_ne hj with hlt | hlt
        · rw [List.getElem?_eq_none (by simpa using Nat.succ_le_of_lt hlt),
            List.getElem?_eq_none (Nat.le_of_lt hlt)]
        · exact List.getElem?_append_left hlt
      simp only [FanoutStep.seenBy, if_neg hj, Option.toList_none, exec_nil, view, hconn]
  | conn j l =>
    obtain ⟨c, hc, c', hc', rfl⟩ : ∃ c, s.conns[j]? = some c ∧ ∃ c', c.step l = some c' ∧
        { s with conns := s.conns.set j c' } = s' := by
      simpa [step, Option.bind_eq_some_iff] using h
    rcases eq_or_ne j i with rfl | hj
    · simp [FanoutStep.seenBy, exec_cons, View.step, view, hc, hc', List.getElem?_set_self']
    · rw [view_set_of_ne hj, FanoutStep.seenBy, if_neg hj]
      rfl
  | join j ok =>
    obtain ⟨c, senders, hc, hsenders, hw, rfl⟩ : ∃ c senders, s.conns[j]? = some c ∧
        s.senders = .unlocked senders ∧ c.writer = .joining ∧
        (if ok then ⟨s.conns.set j { c with writer := .waiting }, .unlocked (senders ++ [j])⟩
          else { s with conns := s.conns.set j { c with writer := .leaving } }) = s' := by
      simp only [step] at h
      split at h
      case h_2 => cases h
      case h_1 c senders hc hsenders =>
        refine ⟨c, senders, hc, hsenders, ?_⟩
        by_cases hw : c.writer = .joining
        · cases ok <;> simpa [hw] using h
        · simp [hw] at h
    rcases eq_or_ne j i with rfl | hj
    · cases ok <;>
        simp [FanoutStep.seenBy, exec_cons, View.step, view, hc, hw, hsenders,
          List.getElem?_set_self']
    · rw [FanoutStep.seenBy, if_neg hj]
      cases ok with
      | false => exact congrArg some (view_set_of_ne hj s _).symm
      | true => simp [view, hsenders, List.getElem?_set_ne hj, hj]
  | starve j =>
    obtain ⟨c, hc, hw, rfl⟩ : ∃ c, s.conns[j]? = some c ∧
        (c.writer = .waiting ∧ c.queue = [] ∧ j ∉ s.senders.all) ∧
        { s with conns := s.conns.set j { c with writer := .leaving } } = s' := by
      obtain ⟨c, hc, hif⟩ := Option.bind_eq_some_iff.mp h
      refine ⟨c, hc, ?_⟩
      simpa only [Option.ite_none_right_eq_some, Option.some.injEq] using hif
    rcases eq_or_ne j i with rfl | hj
    · have hlisted : (s.view j).listed = 0 := by
        rw [listed_view, List.count_eq_zero]
        exact hw.2.2
      simp only [FanoutStep.seenBy, if_pos, Option.toList_some, exec_cons, View.step, view_conn, hc,
        Option.bind_some, hw.1, hw.2.1, hlisted, and_self, exec_nil]
      simp [view, hc, List.getElem?_set_self']
    · rw [view_set_of_ne hj, FanoutStep.seenBy, if_neg hj]
      rfl
  | broadcast bytes =>
    cases hsenders : s.senders with
    | retain _ _ _ => simp [step, hsenders] at h
    | unlocked senders =>
      obtain rfl : { s with senders := .retain bytes [] senders } = s' := by
        simpa [step, hsenders] using h
      simp [FanoutStep.seenBy, exec_cons, View.step, view, hsenders]
  | offer j =>
    obtain ⟨c, bytes, kept, todo, hc, hsenders, rfl⟩ : ∃ c bytes kept todo, s.conns[j]? = some c ∧
        s.senders = .retain bytes kept (j :: todo) ∧
        (match c.trySend bytes with
        | (.disconnected, _) => { s with senders := .retain bytes kept todo }
        | (_, c') => ⟨s.conns.set j c', .retain bytes (kept ++ [j]) todo⟩ : Fanout) = s' := by
      simp only [step] at h
      split at h
      case h_2 => cases h
      case h_1 c bytes kept k todo hc hsenders =>
        by_cases hk : k = j
        · subst hk
          refine ⟨c, bytes, kept, todo, hc, hsenders, ?_⟩
          rw [if_neg (not_not.mpr rfl)] at h
          split at h <;> exact Option.some.inj h
        · rw [if_pos hk] at h
          cases h
    rcases eq_or_ne j i with rfl | hj
    · rcases c.trySend_cases bytes with ⟨-, hsend⟩ | ⟨-, -, hsend⟩ | ⟨-, -, hsend⟩ <;>
        simp [FanoutStep.seenBy, exec_cons, View.step, view, hc, hsenders, hsend,
          List.getElem?_set_self']
    · rw [FanoutStep.seenBy, if_neg hj]
      rcases c.trySend_cases bytes with ⟨-, hsend⟩ | ⟨-, -, hsend⟩ | ⟨-, -, hsend⟩ <;>
        simp [view, hsenders, hsend, List.getElem?_set_ne hj, hj]
  | finish =>
    simp only [step] at h
    split at h
    case h_2 => cases h
    case h_1 bytes kept hsenders =>
      obtain rfl := Option.some.inj h
      simp [FanoutStep.seenBy, exec_cons, View.step, view, hsenders]

/-- **A run of the daemon is, to a client, a run of its view.** -/
theorem exec_view (i : ℕ) {t : Fanout} {ls : List FanoutStep} (h : exec step s ls = some t) :
    exec View.step (s.view i) (ls.filterMap (FanoutStep.seenBy i)) = some (t.view i) :=
  exec_filterMap (view i) (FanoutStep.seenBy i) (fun _ _ _ => step_view i) h

end Fanout

end Procnet
