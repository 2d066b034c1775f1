import Procnet.Core.Wire

/-!
# Streams that are cut anywhere

What can be read from a stream of frames of which only the first bytes are delivered, in pieces,
and perhaps followed by an error. The frame of a payload is no prefix of the frame of another one
(`frame_append_inj`), so a read that succeeds has found the next message of the stream
(`readMsgs_delivered`), wherever the stream ends.
-/

namespace Procnet

open Lib

variable {α : Type} {deserialize : Decoder α} {payload : List UInt8} {msg m : α}
  {reader reader' reader'' : SocketReader}

/-- **Frames are told apart by their first bytes.** -/
theorem frame_append_inj {p q r s : List UInt8} (hp : p.length < 2 ^ 16) (hq : q.length < 2 ^ 16)
    (h : frame p ++ r = frame q ++ s) : p = q ∧ r = s := by
  rw [frame, frame, List.append_assoc, List.append_assoc] at h
  obtain ⟨hprefixes, hrest⟩ := List.append_inj h (by simp)
  have hlen : p.length = q.length := by
    rw [← ofLeBytes_prefix hp, hprefixes, ofLeBytes_prefix hq]
  exact List.append_inj hrest hlen

/-- **A read that succeeds has found the next message**, if the bytes to come are the first ones
of its frame and of what follows. -/
theorem readMsg_delivered {stream : List UInt8} (hreads : Reads deserialize payload msg)
    (hp : reader.pending <+: frame payload ++ stream)
    (h : readMsg deserialize reader = .ok (m, reader')) :
    m = msg ∧ reader.pending = frame payload ++ reader'.pending := by
  obtain ⟨rest, hrest⟩ := hp
  obtain ⟨payload', unused, hlt, hdec, hpending⟩ := frame_of_readMsg h
  rw [hpending, List.append_assoc] at hrest
  obtain ⟨rfl, -⟩ := frame_append_inj hlt hreads.1 hrest
  rw [hreads.2] at hdec
  obtain ⟨rfl, -⟩ := Prod.mk.inj (Except.ok.inj hdec)
  exact ⟨rfl, hpending⟩

/-- A read takes at least the bytes of a prefix. -/
theorem pending_ne_nil_of_readMsg (h : readMsg deserialize reader = .ok (m, reader')) :
    reader.pending ≠ [] := by
  obtain ⟨payload, unused, -, -, hpending⟩ := frame_of_readMsg h
  intro hnil
  have hlen := congrArg List.length (hpending.symm.trans hnil)
  rw [List.length_append, length_frame, PREFIX_LEN] at hlen
  simp at hlen

/-- **The messages read are the first ones of the stream**, and their frames are complete. -/
theorem readMsgs_delivered {payloads : List (List UInt8)} {msgs received : List α}
    (h : List.Forall₂ (Reads deserialize) payloads msgs) {n : ℕ}
    (hp : reader.pending = (payloads.map frame).flatten.take n) {k : ℕ}
    (hk : readMsgs deserialize k reader = .ok (received, reader')) :
    k ≤ completeFrames (payloads.map frame) n ∧ received = msgs.take k := by
  induction h generalizing reader n k received with
  | nil =>
    cases k with
    | zero =>
      obtain ⟨rfl, -⟩ := Prod.mk.inj (Except.ok.inj hk)
      exact ⟨Nat.le_refl 0, rfl⟩
    | succ k =>
      obtain ⟨⟨m, reader₁⟩, h₁, -⟩ := bind_eq_ok.mp hk
      exact absurd (hp.trans List.take_nil) (pending_ne_nil_of_readMsg h₁)
  | @cons payload msg payloads msgs hread _ ih =>
    cases k with
    | zero =>
      obtain ⟨rfl, -⟩ := Prod.mk.inj (Except.ok.inj hk)
      exact ⟨Nat.zero_le _, rfl⟩
    | succ k =>
      obtain ⟨⟨m, reader₁⟩, h₁, hk⟩ := bind_eq_ok.mp hk
      obtain ⟨⟨ms, reader₂⟩, h₂, hk⟩ := bind_eq_ok.mp hk
      obtain ⟨rfl, rfl⟩ := Prod.mk.inj (Except.ok.inj hk)
      rw [List.map_cons, List.flatten_cons] at hp
      obtain ⟨rfl, hpending⟩ := readMsg_delivered hread (hp ▸ List.take_prefix n _) h₁
      -- The frame that has been read was complete.
      have hn : (frame payload).length ≤ n ∧ reader₁.pending = (payloads.map frame).flatten.take
          (n - (frame payload).length) := by
        have hlen := congrArg List.length (hpending.symm.trans hp)
        rw [List.length_append, List.length_take, List.length_append] at hlen
        have hle : (frame payload).length ≤ n := by omega
        rw [hpending, List.take_append, List.take_of_length_le hle] at hp
        exact ⟨hle, List.append_cancel_left hp⟩
      obtain ⟨hle, rfl⟩ := ih hn.2 h₂
      rw [List.map_cons, completeFrames, if_pos hn.1]
      exact ⟨Nat.succ_le_succ hle, rfl⟩

/-- **All messages can be read whose frames are complete**, whether the stream fails after them or
not. -/
theorem exists_readMsgs_complete {payloads : List (List UInt8)} {msgs : List α}
    (h : List.Forall₂ (Reads deserialize) payloads msgs) {n : ℕ}
    (hp : reader.pending = (payloads.map frame).flatten.take n) :
    ∃ received reader', readMsgs deserialize (completeFrames (payloads.map frame) n) reader =
      .ok (received, reader') := by
  induction h generalizing reader n with
  | nil => exact ⟨_, _, rfl⟩
  | @cons payload msg payloads msgs hread _ ih =>
    rw [List.map_cons, List.flatten_cons] at hp
    rw [List.map_cons, completeFrames]
    split_ifs with hle
    · rw [List.take_append, List.take_of_length_le hle] at hp
      obtain ⟨r₁, h₁, hp₁, -⟩ := readMsg_frame hp hread.1 hread.2
      obtain ⟨received, r₂, h₂⟩ := ih hp₁
      refine ⟨msg :: received, r₂, ?_⟩
      simp only [readMsgs, h₁, ok_bind, h₂]
      rfl
    · exact ⟨_, _, rfl⟩

/-- One message more is read. -/
theorem readMsgs_succ {k : ℕ} {msgs : List α}
    (hk : readMsgs deserialize k reader = .ok (msgs, reader'))
    (h : readMsg deserialize reader' = .ok (m, reader'')) :
    readMsgs deserialize (k + 1) reader = .ok (msgs ++ [m], reader'') := by
  induction k generalizing reader msgs with
  | zero =>
    obtain ⟨rfl, rfl⟩ := Prod.mk.inj (Except.ok.inj hk)
    simp only [readMsgs, h, ok_bind]
    rfl
  | succ k ih =>
    obtain ⟨⟨m₁, reader₁⟩, h₁, hk⟩ := bind_eq_ok.mp hk
    obtain ⟨⟨ms, reader₂⟩, h₂, hk⟩ := bind_eq_ok.mp hk
    obtain ⟨rfl, rfl⟩ := Prod.mk.inj (Except.ok.inj hk)
    have hrest := ih h₂
    rw [readMsgs, h₁, ok_bind]
    simp only [hrest, ok_bind]
    rfl

/-- **Nothing is read after an error.** -/
theorem le_of_readMsgs_error {j k : ℕ} {err : MsgReadError} {msgs msgs' : List α}
    (hj : readMsgs deserialize j reader = .ok (msgs, reader'))
    (herr : readMsg deserialize reader' = .error err)
    (hk : readMsgs deserialize k reader = .ok (msgs', reader'')) : k ≤ j := by
  induction j generalizing reader k msgs msgs' with
  | zero =>
    obtain ⟨-, rfl⟩ := Prod.mk.inj (Except.ok.inj hj)
    cases k with
    | zero => exact Nat.le_refl 0
    | succ k =>
      obtain ⟨⟨m₁, reader₁⟩, h₁, -⟩ := bind_eq_ok.mp hk
      rw [herr] at h₁
      cases h₁
  | succ j ih =>
    cases k with
    | zero => exact Nat.zero_le _
    | succ k =>
      obtain ⟨⟨m₁, reader₁⟩, h₁, hj⟩ := bind_eq_ok.mp hj
      obtain ⟨⟨ms, reader₂⟩, h₂, hj⟩ := bind_eq_ok.mp hj
      obtain ⟨-, rfl⟩ := Prod.mk.inj (Except.ok.inj hj)
      obtain ⟨⟨m₁', reader₁'⟩, h₁', hk⟩ := bind_eq_ok.mp hk
      obtain ⟨⟨ms', reader₂'⟩, h₂', hk⟩ := bind_eq_ok.mp hk
      obtain ⟨-, rfl⟩ := Prod.mk.inj (Except.ok.inj hk)
      obtain ⟨-, rfl⟩ := Prod.mk.inj (Except.ok.inj (h₁.symm.trans h₁'))
      exact Nat.succ_le_succ (ih h₂ h₂')

end Procnet
