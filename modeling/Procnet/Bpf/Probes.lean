import Procnet.Bpf.Kernel

/-!
# The probes of the socket functions

The bytes that a socket function moves are known when it returns, and the address of its socket
when it is entered. A pair of probes carries the address from one to the other: the probe at the
entry saves it under the current thread, in a map for the function, and the probe at the exit
takes it from there and calls `account_bytes`. The maps are LRU hashes, so that the probe of a
thread can take the place of the address of another one, which may still need it: an exit probe
that finds nothing returns.

A probe runs up to its call of `account_bytes` in one step of the model; what an entry probe
evicts from a full map is up to the environment. Threads are in a function between its two
probes, and leave it before they exit.

`probes_pair` says what an exit probe does in any run: it has the bytes of the call accounted,
with the address that the probe at the matching entry has captured, exactly if that address has
not been evicted in between (`ProbeObs.Evicts`).
-/

namespace Procnet

open Lib

/-! ### Captured addresses -/

/-- `AF_INET`. -/
def AF_INET : UInt16 := 2

/-- `AF_INET6`. -/
def AF_INET6 : UInt16 := 10

/-- What the probes read of a socket. -/
structure Sock where
  family : UInt16
  num : UInt16
  /-- Big Endian. -/
  dport : UInt16
  /-- Big Endian. -/
  daddr : UInt32
  v6Daddr : Vector UInt8 16
  deriving DecidableEq, Repr

instance : Inhabited Sock := ⟨⟨0, 0, 0, 0, Vector.replicate 16 0⟩⟩

/-- A number in network byte order, as the host reads it. -/
def bpfNtohs (e : Endian) (x : UInt16) : UInt16 :=
  match e with
  | .little => x <<< 8 ||| x >>> 8
  | .big => x

/-- The remote endpoint of a socket. -/
def captureAddr (e : Endian) (sk : Sock) : StatsAddr where
  dstPort := bpfNtohs e sk.dport
  srcPort := sk.num
  dstIpv4 := if sk.family = AF_INET then sk.daddr else 0
  dstIpv6 :=
    if sk.family = AF_INET then Vector.replicate 16 0
    else if sk.family = AF_INET6 then sk.v6Daddr
    else Vector.replicate 16 0

/-! ### The probes -/

/-- Entries of each of the maps of addresses. -/
def ADDRS_SIZE : ℕ := 512

/-- The socket functions with a probe at the entry and one at the exit. -/
inductive Hook where
  | tcpSendmsg : Hook
  | udpSendmsg : Hook
  | udpRecvmsg : Hook
  deriving DecidableEq, Repr

/-- The maps of addresses, the threads, and the rest of the kernel. -/
structure Probes (n : ℕ) where
  /-- `TCP_SEND_ADDRS`, `UDP_SEND_ADDRS` and `UDP_RECV_ADDRS`. -/
  addrs : Hook → BoundedMap Thread StatsAddr ADDRS_SIZE
  /-- The threads in a function. -/
  inside : Hook → List Thread
  kernel : Kernel n

/-- What can happen next. -/
inductive ProbeStep (n : ℕ) where
  /-- A thread starts or exits, or a call of `account_bytes` goes on. -/
  | kernel (l : KernelStep n) : ProbeStep n
  /-- A thread enters a function; what its probe evicts if the map is full. -/
  | entry (f : Hook) (t : Thread) (sk : Sock) (victim : Thread) : ProbeStep n
  /-- A thread returns from a function, on a CPU. -/
  | exit (f : Hook) (cpu : Fin n) (t : Thread) (ret : Int32) : ProbeStep n
  /-- A thread has copied bytes out of the receive buffer of a TCP socket. -/
  | cleanupRbuf (cpu : Fin n) (t : Thread) (sk : Sock) (copied : Int32) : ProbeStep n
  deriving DecidableEq

/-- An `int`, as a `u64`. -/
def toU64 (ret : Int32) : UInt64 := ret.toInt64.toUInt64

/-- The call that accounts the bytes a function has moved. -/
def Hook.accounts {n : ℕ} (f : Hook) (cpu : Fin n) (t : Thread) (addr : StatsAddr)
    (bytes : UInt64) : KernelStep n :=
  match f with
  | .tcpSendmsg => .enter cpu t addr bytes 0 .tcp
  | .udpSendmsg => .enter cpu t addr bytes 0 .udp
  | .udpRecvmsg => .enter cpu t addr 0 bytes .udp

namespace Probes

variable {n : ℕ}

/-- The kernel when the program is loaded. -/
def boot : Probes n := ⟨fun _ => .empty, fun _ => [], .boot⟩

/-- The call of `account_bytes` that a probe makes. -/
def account (s : Probes n) (cpu : Fin n) (t : Thread) (addr : StatsAddr) (sent recv : UInt64)
    (protocol : Protocol) : Option (Probes n) :=
  (s.kernel.step (.enter cpu t addr sent recv protocol)).map fun k => { s with kernel := k }

/-- The body of an entry probe: saves the address of the socket. -/
def saveAddr (f : Hook) (e : Endian) (s : Probes n) (t : Thread) (sk : Sock) (victim : Thread) :
    Option (Probes n) :=
  ((s.addrs f).put victim t (captureAddr e sk)).map fun m =>
    { s with addrs := Function.update s.addrs f m }

/-- The body of an exit probe: takes the saved address, if it is there, and accounts the bytes
that the function has moved. -/
def takeAddr (f : Hook) (s : Probes n) (t : Thread) (ret : Int32)
    (accountRet : Probes n → StatsAddr → UInt64 → Option (Probes n)) : Option (Probes n) :=
  match (s.addrs f).lookup t with
  | none => some s
  | some addr =>
    let s := { s with addrs := Function.update s.addrs f ((s.addrs f).erase t) }
    if 0 < ret then accountRet s addr (toU64 ret) else some s

def procnetTcpSendmsgEntry (e : Endian) (s : Probes n) (t : Thread) (sk : Sock)
    (victim : Thread) : Option (Probes n) :=
  s.saveAddr .tcpSendmsg e t sk victim

def procnetTcpSendmsgExit (s : Probes n) (cpu : Fin n) (t : Thread) (ret : Int32) :
    Option (Probes n) :=
  s.takeAddr .tcpSendmsg t ret fun s addr bytes => s.account cpu t addr bytes 0 .tcp

def procnetTcpCleanupRbuf (e : Endian) (s : Probes n) (cpu : Fin n) (t : Thread) (sk : Sock)
    (copied : Int32) : Option (Probes n) :=
  if copied ≤ 0 then some s else s.account cpu t (captureAddr e sk) 0 (toU64 copied) .tcp

def procnetUdpSendmsgEntry (e : Endian) (s : Probes n) (t : Thread) (sk : Sock)
    (victim : Thread) : Option (Probes n) :=
  s.saveAddr .udpSendmsg e t sk victim

def procnetUdpSendmsgExit (s : Probes n) (cpu : Fin n) (t : Thread) (ret : Int32) :
    Option (Probes n) :=
  s.takeAddr .udpSendmsg t ret fun s addr bytes => s.account cpu t addr bytes 0 .udp

def procnetUdpRecvmsgEntry (e : Endian) (s : Probes n) (t : Thread) (sk : Sock)
    (victim : Thread) : Option (Probes n) :=
  s.saveAddr .udpRecvmsg e t sk victim

def procnetUdpRecvmsgExit (s : Probes n) (cpu : Fin n) (t : Thread) (ret : Int32) :
    Option (Probes n) :=
  s.takeAddr .udpRecvmsg t ret fun s addr bytes => s.account cpu t addr 0 bytes .udp

/-- The entry probe of a function. -/
def entryProbe (e : Endian) (s : Probes n) : Hook → Thread → Sock → Thread → Option (Probes n)
  | .tcpSendmsg => s.procnetTcpSendmsgEntry e
  | .udpSendmsg => s.procnetUdpSendmsgEntry e
  | .udpRecvmsg => s.procnetUdpRecvmsgEntry e

/-- The exit probe of a function. -/
def exitProbe (s : Probes n) : Hook → Fin n → Thread → Int32 → Option (Probes n)
  | .tcpSendmsg => s.procnetTcpSendmsgExit
  | .udpSendmsg => s.procnetUdpSendmsgExit
  | .udpRecvmsg => s.procnetUdpRecvmsgExit

/-- Whether a step of the kernel is not that of a probe, nor the exit of a thread in a
function. -/
def Allows (s : Probes n) : KernelStep n → Prop
  | .enter .. => False
  | .exit t => t ∉ s.inside .tcpSendmsg ∧ t ∉ s.inside .udpSendmsg ∧ t ∉ s.inside .udpRecvmsg
  | .spawn _ | .run _ => True

instance (s : Probes n) : DecidablePred s.Allows
  | .enter .. => inferInstanceAs (Decidable False)
  | .exit _ => inferInstanceAs (Decidable (_ ∧ _))
  | .spawn _ | .run _ => inferInstanceAs (Decidable True)

/-- One step of the probes. A thread runs one probe at a time. -/
def step (e : Endian) (s : Probes n) : ProbeStep n → Option (Probes n)
  | .kernel l =>
    if s.Allows l then (s.kernel.step l).map fun k => { s with kernel := k } else none
  | .entry f t sk victim =>
    if t ∈ s.kernel.live ∧ ¬ s.kernel.Busy t ∧ t ∉ s.inside f then
      (s.entryProbe e f t sk victim).map fun s =>
        { s with inside := Function.update s.inside f (t :: s.inside f) }
    else none
  | .exit f cpu t ret =>
    if ¬ s.kernel.Busy t ∧ t ∈ s.inside f then
      (s.exitProbe f cpu t ret).map fun s =>
        { s with inside := Function.update s.inside f ((s.inside f).filter (· ≠ t)) }
    else none
  | .cleanupRbuf cpu t sk copied => s.procnetTcpCleanupRbuf e cpu t sk copied

/-! ### What a step can do -/

variable {e : Endian} {s s' : Probes n} {f : Hook} {t : Thread}

/-- **An entry probe saves the address of its socket.** -/
theorem entryProbe_eq (e : Endian) (s : Probes n) (f : Hook) (t : Thread) (sk : Sock)
    (victim : Thread) :
    s.entryProbe e f t sk victim = ((s.addrs f).put victim t (captureAddr e sk)).map fun m =>
      { s with addrs := Function.update s.addrs f m } := by
  cases f <;> rfl

/-- **What an exit probe does**: nothing if there is no saved address; otherwise it removes it,
and has the bytes accounted if there are any. -/
theorem exitProbe_eq (s : Probes n) (f : Hook) (cpu : Fin n) (t : Thread) (ret : Int32) :
    s.exitProbe f cpu t ret =
      match (s.addrs f).lookup t with
      | none => some s
      | some addr =>
        (if 0 < ret then s.kernel.step (f.accounts cpu t addr (toU64 ret)) else some s.kernel).map
          fun k =>
            { s with
              addrs := Function.update s.addrs f ((s.addrs f).erase t)
              kernel := k } := by
  have htake : ∀ (f : Hook) (l : StatsAddr → UInt64 → KernelStep n)
      (accountRet : Probes n → StatsAddr → UInt64 → Option (Probes n)),
      (∀ s addr bytes, accountRet s addr bytes =
        (s.kernel.step (l addr bytes)).map fun k => { s with kernel := k }) →
      s.takeAddr f t ret accountRet =
        match (s.addrs f).lookup t with
        | none => some s
        | some addr =>
          (if 0 < ret then s.kernel.step (l addr (toU64 ret)) else some s.kernel).map fun k =>
            { s with
              addrs := Function.update s.addrs f ((s.addrs f).erase t)
              kernel := k } := by
    intro f l accountRet haccount
    rw [takeAddr]
    cases (s.addrs f).lookup t with
    | none => rfl
    | some addr =>
      simp only [haccount]
      split_ifs <;> rfl
  cases f with
  | tcpSendmsg =>
    exact htake _ (fun addr bytes => .enter cpu t addr bytes 0 .tcp) _ fun _ _ _ => rfl
  | udpSendmsg =>
    exact htake _ (fun addr bytes => .enter cpu t addr bytes 0 .udp) _ fun _ _ _ => rfl
  | udpRecvmsg =>
    exact htake _ (fun addr bytes => .enter cpu t addr 0 bytes .udp) _ fun _ _ _ => rfl

/-- A thread that enters a function has its address saved. -/
theorem step_entry {sk : Sock} {victim : Thread} (h : s.step e (.entry f t sk victim) = some s') :
    t ∉ s.inside f ∧ ∃ m, (s.addrs f).put victim t (captureAddr e sk) = some m ∧
      s' = ⟨Function.update s.addrs f m, Function.update s.inside f (t :: s.inside f),
        s.kernel⟩ := by
  obtain ⟨⟨-, -, hinside⟩, hs⟩ := Option.ite_none_right_eq_some.mp h
  obtain ⟨u, hu, rfl⟩ := Option.map_eq_some_iff.mp hs
  rw [entryProbe_eq] at hu
  obtain ⟨m, hm, rfl⟩ := Option.map_eq_some_iff.mp hu
  exact ⟨hinside, m, hm, rfl⟩

/-- A thread that returns from a function leaves no address behind, and what it does else
depends on whether it has found one, and on what the function returns. -/
theorem step_exit {cpu : Fin n} {ret : Int32} (h : s.step e (.exit f cpu t ret) = some s') :
    t ∈ s.inside f ∧
      s'.inside = Function.update s.inside f ((s.inside f).filter (· ≠ t)) ∧
      (∀ f' t', (s'.addrs f').lookup t' =
        if f' = f ∧ t' = t then none else (s.addrs f').lookup t') ∧
      (ret ≤ 0 → s'.kernel = s.kernel) ∧
      (0 < ret → ((s.addrs f).lookup t = none → s'.kernel = s.kernel) ∧
        ∀ addr, (s.addrs f).lookup t = some addr →
          s.kernel.step (f.accounts cpu t addr (toU64 ret)) = some s'.kernel) := by
  obtain ⟨⟨-, hinside⟩, hs⟩ := Option.ite_none_right_eq_some.mp h
  obtain ⟨u, hu, rfl⟩ := Option.map_eq_some_iff.mp hs
  have hneg : ret ≤ 0 → ¬ 0 < ret := fun hle => Int32.not_lt.mpr hle
  rw [exitProbe_eq] at hu
  cases hlookup : (s.addrs f).lookup t with
  | none =>
    rw [hlookup] at hu
    obtain rfl := Option.some.inj hu
    refine ⟨hinside, rfl, fun f' t' => ?_, fun _ => rfl, fun _ => ⟨fun _ => rfl, by simp⟩⟩
    split_ifs with heq
    · rw [heq.1, heq.2, hlookup]
    · rfl
  | some addr =>
    rw [hlookup] at hu
    obtain ⟨k, hk, rfl⟩ := Option.map_eq_some_iff.mp hu
    refine ⟨hinside, rfl, fun f' t' => ?_, fun hle => ?_, fun hpos => ⟨by simp, ?_⟩⟩
    · by_cases hf : f' = f
      · subst hf
        simp
      · simp [hf]
    · rw [if_neg (hneg hle)] at hk
      exact (Option.some.inj hk).symm
    · rintro addr' ⟨⟩
      rwa [if_pos hpos] at hk

end Probes

/-! ### What a run shows -/

/-- What happens at the probes of a function. -/
inductive ProbeObs where
  /-- A thread enters a function with the address of its socket; whose address makes room for
  it, if the map is full. -/
  | entered (f : Hook) (t : Thread) (addr : StatsAddr) (evicted : Option Thread) : ProbeObs
  | exited (f : Hook) (t : Thread) : ProbeObs
  deriving DecidableEq, Repr

namespace ProbeObs

/-- Whether it happens at the probes of a function, for a thread. -/
def Of (f : Hook) (t : Thread) : ProbeObs → Prop
  | entered f' t' _ _ | exited f' t' => f' = f ∧ t' = t

/-- Whether the address of a thread is evicted. -/
def Evicts (f : Hook) (t : Thread) : ProbeObs → Prop
  | entered f' _ _ evicted => f' = f ∧ evicted = some t
  | exited _ _ => False

instance (f : Hook) (t : Thread) : DecidablePred (Of f t)
  | entered .. | exited .. => inferInstanceAs (Decidable (_ ∧ _))

instance (f : Hook) (t : Thread) : DecidablePred (Evicts f t)
  | entered .. => inferInstanceAs (Decidable (_ ∧ _))
  | exited .. => inferInstanceAs (Decidable False)

/-- What it makes of the saved address of a thread. -/
def save (f : Hook) (t : Thread) (saved : Option StatsAddr) : ProbeObs → Option StatsAddr
  | entered f' t' addr evicted =>
    if f' = f ∧ t' = t then some addr else if f' = f ∧ evicted = some t then none else saved
  | exited f' t' => if f' = f ∧ t' = t then none else saved

/-- What it makes of whether a thread is in a function. -/
def enter (f : Hook) (t : Thread) (inside : Bool) : ProbeObs → Bool
  | entered f' t' _ _ => if f' = f ∧ t' = t then true else inside
  | exited f' t' => if f' = f ∧ t' = t then false else inside

end ProbeObs

/-- What happens in a step. -/
def Probes.obs {n : ℕ} (e : Endian) (s : Probes n) : ProbeStep n → Option ProbeObs
  | .entry f t sk victim =>
    some (.entered f t (captureAddr e sk) (if (s.addrs f).Evicts t then some victim else none))
  | .exit f _ t _ => some (.exited f t)
  | .kernel _ | .cleanupRbuf .. => none

/-- What happens in a run. -/
def probeHistory {n : ℕ} (e : Endian) (ls : List (ProbeStep n)) : List ProbeObs :=
  observe (Probes.step e) (Probes.obs e) .boot ls

/-- The address of a thread that a history has left in the map of a function. -/
def savedAddr (f : Hook) (t : Thread) (hist : List ProbeObs) : Option StatsAddr :=
  hist.foldl (ProbeObs.save f t) none

/-- Whether a history has left a thread in a function. -/
def isInside (f : Hook) (t : Thread) (hist : List ProbeObs) : Bool :=
  hist.foldl (ProbeObs.enter f t) false

theorem savedAddr_concat (f : Hook) (t : Thread) (hist : List ProbeObs) (o : ProbeObs) :
    savedAddr f t (hist ++ [o]) = o.save f t (savedAddr f t hist) := by
  rw [savedAddr, List.foldl_append]
  rfl

theorem isInside_concat (f : Hook) (t : Thread) (hist : List ProbeObs) (o : ProbeObs) :
    isInside f t (hist ++ [o]) = o.enter f t (isInside f t hist) := by
  rw [isInside, List.foldl_append]
  rfl

/-- **A thread in a function has entered it**, and passed none of its probes since. -/
theorem exists_entered {f : Hook} {t : Thread} {hist : List ProbeObs}
    (h : isInside f t hist = true) :
    ∃ before addr evicted since, hist = before ++ .entered f t addr evicted :: since ∧
      ∀ o ∈ since, ¬ o.Of f t := by
  induction hist using List.reverseRecOn with
  | nil => cases h
  | append_singleton hist o ih =>
    have hold : isInside f t hist = true → ¬ o.Of f t → ∃ before addr evicted since,
        hist ++ [o] = before ++ .entered f t addr evicted :: since ∧ ∀ o ∈ since, ¬ o.Of f t := by
      intro hin hof
      obtain ⟨before, addr, evicted, since, rfl, hsince⟩ := ih hin
      refine ⟨before, addr, evicted, since ++ [o], by simp, fun o' ho' => ?_⟩
      rcases List.mem_append.mp ho' with ho' | ho'
      · exact hsince o' ho'
      · rw [List.mem_singleton.mp ho']
        exact hof
    rw [isInside_concat] at h
    cases o with
    | entered f' t' addr evicted =>
      by_cases hof : f' = f ∧ t' = t
      · obtain ⟨rfl, rfl⟩ := hof
        exact ⟨hist, addr, evicted, [], rfl, by simp⟩
      · rw [ProbeObs.enter, if_neg hof] at h
        exact hold h hof
    | exited f' t' =>
      by_cases hof : f' = f ∧ t' = t
      · rw [ProbeObs.enter, if_pos hof] at h
        cases h
      · rw [ProbeObs.enter, if_neg hof] at h
        exact hold h hof

/-- **What is left of a saved address** while its thread passes no probe of the function: it
stays, until it is evicted. -/
theorem foldl_save {f : Hook} {t : Thread} {since : List ProbeObs}
    (h : ∀ o ∈ since, ¬ o.Of f t) (saved : Option StatsAddr) :
    since.foldl (ProbeObs.save f t) saved =
      if ∃ o ∈ since, o.Evicts f t then none else saved := by
  induction since using List.reverseRecOn with
  | nil => simp
  | append_singleton since o ih =>
    have hof := h o (by simp)
    have ih' := ih fun o' ho' => h o' (List.mem_append_left _ ho')
    rw [List.foldl_append, ih', List.foldl_cons, List.foldl_nil]
    have hiff : (∃ o' ∈ since ++ [o], o'.Evicts f t) ↔
        (∃ o' ∈ since, o'.Evicts f t) ∨ o.Evicts f t := by
      simp [or_and_right, exists_or]
    cases o with
    | entered f' t' addr evicted =>
      have hof' : ¬ (f' = f ∧ t' = t) := hof
      rw [ProbeObs.save, if_neg hof']
      by_cases hev : f' = f ∧ evicted = some t
      · rw [if_pos hev, if_pos (hiff.mpr (Or.inr hev))]
      · rw [if_neg hev]
        exact if_congr (hiff.trans (or_iff_left hev)).symm rfl rfl
    | exited f' t' =>
      have hof' : ¬ (f' = f ∧ t' = t) := hof
      rw [ProbeObs.save, if_neg hof']
      exact if_congr (hiff.trans (or_iff_left id)).symm rfl rfl

namespace Probes

variable {n : ℕ} {e : Endian} {s s' : Probes n}

/-- The maps and the threads are as the history of the run has left them. -/
structure Follows (s : Probes n) (hist : List ProbeObs) : Prop where
  saved : ∀ f t, (s.addrs f).lookup t = savedAddr f t hist
  inside : ∀ f t, t ∈ s.inside f ↔ isInside f t hist = true

theorem follows_boot : (boot : Probes n).Follows [] := by
  constructor <;> simp [boot, savedAddr, isInside]

/-- The step lemma: what happens in a step makes the maps and the threads what they are. -/
theorem Follows.step {hist : List ProbeObs} (hs : s.Follows hist) {l : ProbeStep n}
    (h : s.step e l = some s') : s'.Follows (hist ++ (s.obs e l).toList) := by
  cases l with
  | kernel l =>
    obtain ⟨-, hk⟩ := Option.ite_none_right_eq_some.mp h
    obtain ⟨k, -, rfl⟩ := Option.map_eq_some_iff.mp hk
    rw [obs, Option.toList_none, List.append_nil]
    exact ⟨hs.saved, hs.inside⟩
  | cleanupRbuf cpu t sk copied =>
    rw [obs, Option.toList_none, List.append_nil]
    simp only [Probes.step, procnetTcpCleanupRbuf, account] at h
    split_ifs at h with hcopied
    · obtain rfl := Option.some.inj h
      exact hs
    · obtain ⟨k, -, rfl⟩ := Option.map_eq_some_iff.mp h
      exact ⟨hs.saved, hs.inside⟩
  | entry f t sk victim =>
    obtain ⟨-, m, hm, rfl⟩ := step_entry h
    rw [obs, Option.toList_some]
    constructor
    · intro f' t'
      rw [savedAddr_concat, ProbeObs.save, ← hs.saved]
      by_cases hf : f' = f
      · -- The map of the function: the new key is there, and perhaps another one is not.
        subst hf
        simp only [Function.update_self, BoundedMap.put_eq_some hm t']
        by_cases hev : (s.addrs f').Evicts t <;> simp [hev, eq_comm]
      · simp [hf, Ne.symm hf]
    · intro f' t'
      rw [isInside_concat, ProbeObs.enter]
      by_cases hf : f' = f
      · subst hf
        by_cases ht : t' = t
        · simp [ht]
        · simp [ht, Ne.symm ht, hs.inside]
      · simp [hf, Ne.symm hf, hs.inside]
  | exit f cpu t ret =>
    obtain ⟨-, hinside, hlookup, -⟩ := step_exit h
    rw [obs, Option.toList_some]
    constructor
    · intro f' t'
      rw [savedAddr_concat, ProbeObs.save, ← hs.saved, hlookup]
      simp only [eq_comm]
    · intro f' t'
      rw [isInside_concat, ProbeObs.enter, hinside]
      by_cases hf : f' = f
      · subst hf
        by_cases ht : t' = t
        · simp [ht]
        · simp [ht, Ne.symm ht, hs.inside]
      · simp [hf, Ne.symm hf, hs.inside]

theorem follows_exec {ls : List (ProbeStep n)} (h : exec (step e) .boot ls = some s) :
    s.Follows (probeHistory e ls) :=
  exec_observe (C := fun _ _ => True) (R := Follows) (fun _ _ _ _ _ hs hstep => hs.step hstep)
    (meets_of_forall (fun _ _ => trivial) _ _) follows_boot h

end Probes

/-- The bytes that a function says it has moved are those that are accounted. -/
theorem toNat_toU64 {ret : Int32} (h : 0 < ret) : ((toU64 ret).toNat : ℤ) = ret.toInt := by
  have hpos : (0 : ℤ) < ret.toInt := Int32.lt_iff_toInt_lt.mp h
  have hle : 0 ≤ ret.toInt64 := by
    rw [Int64.le_iff_toInt_le, Int32.toInt_toInt64]
    exact hpos.le
  rw [toU64, Int64.toNat_toUInt64_of_le hle, Int32.toNatClampNeg_toInt64, Int32.toNatClampNeg]
  exact Int.toNat_of_nonneg hpos.le

/-- **How the probes of a function pair up**: in any run of any number of threads, whatever they
do in between, a thread that returns from a function has entered it, and passed none of its
probes since. It leaves no address behind. What it has moved, if anything, is accounted in one
call of `account_bytes`, with the address captured when it entered, unless that address has
been evicted since; nothing else is. -/
theorem probes_pair {n : ℕ} (e : Endian) (ls : List (ProbeStep n)) (s s' : Probes n) (f : Hook)
    (cpu : Fin n) (t : Thread) (ret : Int32) (h : exec (Probes.step e) .boot ls = some s)
    (hexit : s.step e (.exit f cpu t ret) = some s') :
    (s'.addrs f).lookup t = none ∧
    (ret ≤ 0 → s'.kernel = s.kernel) ∧
    ∃ before addr evicted since,
      probeHistory e ls = before ++ .entered f t addr evicted :: since ∧
      (∀ o ∈ since, ¬ o.Of f t) ∧
      (0 < ret → ((toU64 ret).toNat : ℤ) = ret.toInt ∧
        ((∃ o ∈ since, o.Evicts f t) → s'.kernel = s.kernel) ∧
        ((∀ o ∈ since, ¬ o.Evicts f t) →
          s.kernel.step (f.accounts cpu t addr (toU64 ret)) = some s'.kernel)) := by
  obtain ⟨hinside, -, hlookup, hneg, hpos⟩ := Probes.step_exit hexit
  have hfollows := Probes.follows_exec h
  obtain ⟨before, addr, evicted, since, hhist, hsince⟩ :=
    exists_entered ((hfollows.inside f t).mp hinside)
  have hsaved : (s.addrs f).lookup t =
      if ∃ o ∈ since, o.Evicts f t then none else some addr := by
    have hentered : ProbeObs.save f t (savedAddr f t before) (.entered f t addr evicted) =
        some addr := if_pos ⟨rfl, rfl⟩
    rw [hfollows.saved, hhist, savedAddr, List.foldl_append, List.foldl_cons, foldl_save hsince]
    exact if_congr Iff.rfl rfl hentered
  refine ⟨by rw [hlookup, if_pos ⟨rfl, rfl⟩], hneg, before, addr, evicted, since, hhist, hsince,
    fun hret => ⟨toNat_toU64 hret, fun hev => ?_, fun hev => ?_⟩⟩
  · rw [if_pos hev] at hsaved
    exact (hpos hret).1 hsaved
  · rw [if_neg fun ⟨o, ho, hoev⟩ => hev o ho hoev] at hsaved
    exact (hpos hret).2 addr hsaved

/-- Sockets that are connected to ports 443 and 22. -/
def webSock : Sock := ⟨AF_INET, 40000, 0xBB01, 0x0100000A, Vector.replicate 16 0⟩

def shellSock : Sock := ⟨AF_INET, 40001, 0x1600, 0x0200000A, Vector.replicate 16 0⟩

/-- Two threads send over TCP, each on a CPU of its own. The second one enters the function after
the first one, and has returned from it before. -/
def twoSenders : List (ProbeStep 2) :=
  [.kernel (.spawn (leader 7)), .kernel (.spawn (leader 8)),
    .entry .tcpSendmsg (leader 7) webSock (leader 7),
    .entry .tcpSendmsg (leader 8) shellSock (leader 8),
    .exit .tcpSendmsg (Fin.last 1) (leader 8) 50, .kernel (.run (Fin.last 1))]

/-- The bytes of the first one are accounted with its own address. -/
theorem probes_pair_two_senders :
    ∃ s s' : Probes 2, exec (Probes.step .little) .boot twoSenders = some s ∧
      s.step .little (.exit .tcpSendmsg soleCpu.castSucc (leader 7) 100) = some s' ∧
      s.kernel.step (.enter soleCpu.castSucc (leader 7)
        ⟨443, 40000, 0x0100000A, Vector.replicate 16 0⟩
        (toU64 100) 0 .tcp) = some s'.kernel := by
  obtain ⟨s, hs, hexit⟩ := exists_exec_of_any (Probes.step .little) (.boot : Probes 2) twoSenders
    (fun s => (s.step .little (.exit .tcpSendmsg soleCpu.castSucc (leader 7) 100)).isSome)
    (by decide +kernel)
  obtain ⟨s', hs'⟩ := Option.isSome_iff_exists.mp hexit
  obtain ⟨-, -, before, addr, evicted, since, hhist, -, hret⟩ :=
    probes_pair .little _ s s' .tcpSendmsg soleCpu.castSucc (leader 7) 100 hs hs'
  have hevent : .entered .tcpSendmsg (leader 7) addr evicted ∈ probeHistory .little twoSenders := by
    rw [hhist]
    simp
  have heval : probeHistory .little twoSenders =
      [.entered .tcpSendmsg (leader 7) ⟨443, 40000, 0x0100000A, Vector.replicate 16 0⟩ none,
        .entered .tcpSendmsg (leader 8) ⟨22, 40001, 0x0200000A, Vector.replicate 16 0⟩ none,
        .exited .tcpSendmsg (leader 8)] := by
    decide +kernel
  obtain rfl : addr = ⟨443, 40000, 0x0100000A, Vector.replicate 16 0⟩ := by
    -- It is the only entry of this thread.
    have hne : leader 7 ≠ leader 8 := by decide
    have hfirst : addr = ⟨443, 40000, 0x0100000A, Vector.replicate 16 0⟩ ∧ evicted = none := by
      simpa [heval, hne] using hevent
    exact hfirst.1
  have hnone : ∀ o ∈ probeHistory .little twoSenders, ¬ o.Evicts .tcpSendmsg (leader 7) := by
    decide +kernel
  refine ⟨s, s', hs, hs', (hret (by decide)).2.2 fun o ho => hnone o ?_⟩
  rw [hhist]
  exact List.mem_append_right _ (List.mem_cons_of_mem _ ho)

/-! ### More threads than the map has room for -/

/-- Processes that start and block in `udp_recvmsg`, one after the other. -/
def blockAll : ℕ → List (ProbeStep 1)
  | 0 => []
  | k + 1 => blockAll k ++ [.kernel (.spawn (leader (UInt32.ofNat k))),
      .entry .udpRecvmsg (leader (UInt32.ofNat k)) default (leader 0)]

/-- The processes that have started have small pids, and no call is under way. -/
structure Blocked (k : ℕ) (s : Probes 1) : Prop where
  live : ∀ t ∈ s.kernel.live, t.pid.toNat < k ∧ t.tgid.toNat < k
  idle : ∀ cpu, s.kernel.calls cpu = none
  keys : ∀ t, (s.addrs .udpRecvmsg).lookup t ≠ none → t.pid.toNat < k
  inside : ∀ t ∈ s.inside .udpRecvmsg, t.pid.toNat < k

/-- The next process starts and blocks. -/
theorem Blocked.step {k : ℕ} {s : Probes 1} (h : Blocked k s) (hk : k < 2 ^ 32)
    (hroom : (s.addrs .udpRecvmsg).full → ((s.addrs .udpRecvmsg).lookup (leader 0)).isSome) :
    ∃ m s', (s.addrs .udpRecvmsg).put (leader 0) (leader (UInt32.ofNat k))
        (captureAddr .little default) = some m ∧
      exec (Probes.step .little) s [.kernel (.spawn (leader (UInt32.ofNat k))),
        .entry .udpRecvmsg (leader (UInt32.ofNat k)) default (leader 0)] = some s' ∧
      s'.addrs .udpRecvmsg = m ∧
      s'.inside .udpRecvmsg = leader (UInt32.ofNat k) :: s.inside .udpRecvmsg ∧
      Blocked (k + 1) s' := by
  have hval : (UInt32.ofNat k).toNat = k := UInt32.toNat_ofNat_of_lt' hk
  let t := leader (UInt32.ofNat k)
  have ht : t.pid.toNat = k := hval
  have hnew : (s.addrs .udpRecvmsg).lookup t = none := by
    by_contra hsome
    have hlt := h.keys t hsome
    omega
  obtain ⟨m, hm⟩ : ∃ m, (s.addrs .udpRecvmsg).put (leader 0) t (captureAddr .little default) =
      some m := by
    by_cases hfull : (s.addrs .udpRecvmsg).full
    · -- The address of the first process makes room.
      exact BoundedMap.put_of_victim hnew hfull (hroom hfull) _
    · obtain ⟨m, hm, -⟩ := BoundedMap.put_of_room hnew hfull (leader 0)
        (captureAddr .little default)
      exact ⟨m, hm⟩
  let s₁ : Probes 1 := { s with kernel := { s.kernel with live := t :: s.kernel.live } }
  have hspawn : s.step .little (.kernel (.spawn t)) = some s₁ := by
    have hcan : s.kernel.CanSpawn t := by
      refine ⟨fun u hu => ?_, Or.inl rfl⟩
      obtain ⟨hpid, htgid⟩ := h.live u hu
      exact ⟨fun heq => by rw [heq] at hpid; omega, fun heq => by rw [heq] at htgid; omega⟩
    simp only [Probes.step, Probes.Allows, if_true, Kernel.step, if_pos hcan, Option.map_some]
    rfl
  have hentry : s₁.step .little (.entry .udpRecvmsg t default (leader 0)) =
      some ⟨Function.update s.addrs .udpRecvmsg m,
        Function.update s.inside .udpRecvmsg (t :: s.inside .udpRecvmsg), s₁.kernel⟩ := by
    have hbusy : ¬ s₁.kernel.Busy t := by
      rintro ⟨cpu, c, hc, -⟩
      have hidle : s₁.kernel.calls cpu = none := h.idle cpu
      rw [hidle] at hc
      cases hc
    have hinside : t ∉ s₁.inside .udpRecvmsg := by
      intro hmem
      have hlt := h.inside t hmem
      omega
    have hlive : t ∈ s₁.kernel.live := List.mem_cons_self ..
    have hput : (s₁.addrs .udpRecvmsg).put (leader 0) t (captureAddr .little default) = some m := hm
    simp only [Probes.step, if_pos (And.intro hlive (And.intro hbusy hinside)),
      Probes.entryProbe_eq, hput, Option.map_some]
    rfl
  refine ⟨m, _, hm, exec_cons_eq_some.mpr ⟨s₁, hspawn, exec_cons_eq_some.mpr ⟨_, hentry, rfl⟩⟩,
    by simp only [Function.update_self], by simp only [Function.update_self]; rfl, ?_⟩
  constructor
  · intro u hu
    rcases List.mem_cons.mp hu with rfl | hu
    · have htgid : t.tgid.toNat = k := hval
      exact ⟨by omega, by omega⟩
    · obtain ⟨hpid, htgid⟩ := h.live u hu
      exact ⟨by omega, by omega⟩
  · exact h.idle
  · intro u hu
    simp only [Function.update_self, BoundedMap.put_eq_some hm u] at hu
    by_cases heq : u = t
    · rw [heq]
      omega
    · have hold := h.keys u fun hnone => hu (by rw [if_neg heq, hnone, ite_self])
      omega
  · intro u hu
    simp only [Function.update_self] at hu
    rcases List.mem_cons.mp hu with rfl | hu
    · omega
    · have hold := h.inside u hu
      omega

/-- The first 512 of them fill the map, and the first one is among them. -/
theorem exec_blockAll {k : ℕ} (hk : k ≤ ADDRS_SIZE) :
    ∃ s, exec (Probes.step .little) .boot (blockAll k) = some s ∧ Blocked k s ∧
      (s.addrs .udpRecvmsg).size = k ∧
      (0 < k → ((s.addrs .udpRecvmsg).lookup (leader 0)).isSome ∧
        leader 0 ∈ s.inside .udpRecvmsg) := by
  induction k with
  | zero =>
    refine ⟨.boot, rfl, ?_, rfl, by omega⟩
    constructor <;> simp [Probes.boot, Kernel.boot]
  | succ k ih =>
    obtain ⟨s, hs, hblocked, hsize, hfirst⟩ := ih (by omega)
    have hroom : ¬ (s.addrs .udpRecvmsg).full := by
      intro hfull
      have hle : ADDRS_SIZE ≤ (s.addrs .udpRecvmsg).size := hfull
      omega
    have hlt : k < 2 ^ 32 := by
      rw [ADDRS_SIZE] at hk
      omega
    obtain ⟨m, s', hput, hs', hm, hinside, hblocked'⟩ :=
      hblocked.step hlt fun hfull => absurd hfull hroom
    have hnone : (s.addrs .udpRecvmsg).lookup (leader (UInt32.ofNat k)) = none := by
      by_contra hsome
      have hpid := hblocked.keys _ hsome
      rw [leader, UInt32.toNat_ofNat_of_lt' hlt] at hpid
      omega
    obtain ⟨m', hm', hsize'⟩ := BoundedMap.put_of_room hnone hroom (leader 0)
      (captureAddr .little default)
    obtain rfl := Option.some.inj (hput.symm.trans hm')
    refine ⟨s', exec_append_eq_some.mpr ⟨s, hs, hs'⟩, hblocked', by rw [hm, hsize', hsize],
      fun _ => ?_⟩
    rw [hm, hinside, BoundedMap.put_eq_some hput]
    rcases Nat.eq_zero_or_pos k with rfl | hpos
    · exact ⟨rfl, List.mem_cons_self ..⟩
    · have hkeep : ¬ ((s.addrs .udpRecvmsg).Evicts (leader (UInt32.ofNat k)) ∧
          leader 0 = leader 0) := fun hand => hroom hand.1.2
      refine ⟨?_, List.mem_cons_of_mem _ (hfirst hpos).2⟩
      rw [if_neg hkeep]
      split_ifs
      · rfl
      · exact (hfirst hpos).1

/-- When 513 processes block in `udp_recvmsg`, the address of the first is gone, and what it
receives is not accounted. -/
theorem probes_lose_evicted :
    ∃ (ls : List (ProbeStep 1)) (s s' : Probes 1) (t : Thread) (ret : Int32),
      exec (Probes.step .little) .boot ls = some s ∧ 0 < ret ∧
      s.step .little (.exit .udpRecvmsg 0 t ret) = some s' ∧ s'.kernel = s.kernel := by
  obtain ⟨s, hs, hblocked, hsize, hfirst⟩ := exec_blockAll (k := 512) (le_refl _)
  obtain ⟨hvictim, hinside⟩ := hfirst (by decide)
  have hfull : (s.addrs .udpRecvmsg).full := hsize.ge
  obtain ⟨m, s₁, hput, hs₁, hm, hinside₁, hblocked₁⟩ := hblocked.step (by decide) fun _ => hvictim
  have hgone : (s₁.addrs .udpRecvmsg).lookup (leader 0) = none := by
    have hnone : (s.addrs .udpRecvmsg).lookup (leader (UInt32.ofNat 512)) = none := by
      by_contra hsome
      exact absurd (hblocked.keys _ hsome) (by decide)
    rw [hm, BoundedMap.put_eq_some hput, if_neg (by decide), if_pos ⟨⟨hnone, hfull⟩, rfl⟩]
  have hbusy : ¬ s₁.kernel.Busy (leader 0) := by
    rintro ⟨cpu, c, hc, -⟩
    rw [hblocked₁.idle cpu] at hc
    cases hc
  have hin : leader 0 ∈ s₁.inside .udpRecvmsg := by
    rw [hinside₁]
    exact List.mem_cons_of_mem _ hinside
  obtain ⟨s', hs'⟩ : ∃ s', s₁.step .little (.exit .udpRecvmsg 0 (leader 0) 100) = some s' := by
    refine Option.isSome_iff_exists.mp ?_
    simp only [Probes.step, if_pos (And.intro hbusy hin), Probes.exitProbe_eq, hgone,
      Option.map_some, Option.isSome_some]
  have hkernel := ((Probes.step_exit hs').2.2.2.2 (by decide)).1 hgone
  exact ⟨blockAll 513, s₁, s', leader 0, 100, exec_append_eq_some.mpr ⟨s, hs, hs₁⟩, by decide, hs',
    hkernel⟩

end Procnet
