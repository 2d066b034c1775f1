import Procnet.Bpf.Balance
import Procnet.Bpf.Probes

/-!
# From the socket functions to the books

The books of `Procnet.Bpf.Balance` begin with the calls of `account_bytes`. It is the probes that
make these calls, when a socket function returns, with the bytes that it says to have moved.
`traffic_accounted` begins one step earlier: what the socket functions move for a process is on the
books, but for those functions whose address has been evicted while a thread was in them. None is
as long as the maps of addresses have room for all the threads in a function.
-/

namespace Procnet

open Lib

variable {n : ℕ}

/-! ### What the socket functions move -/

/-- Bytes that a socket function has moved for a thread. -/
structure Traffic where
  thread : Thread
  protocol : Protocol
  dir : Dir
  bytes : ℕ
  deriving DecidableEq, Repr

def Hook.protocol : Hook → Protocol
  | .tcpSendmsg => .tcp
  | .udpSendmsg | .udpRecvmsg => .udp

def Hook.dir : Hook → Dir
  | .tcpSendmsg | .udpSendmsg => .sent
  | .udpRecvmsg => .recv

/-- What a socket function says to have moved. A negative number is an error. -/
def ProbeStep.traffic? : ProbeStep n → Option Traffic
  | .exit f _ t ret => some ⟨t, f.protocol, f.dir, ret.toInt.toNat⟩
  | .cleanupRbuf _ t _ copied => some ⟨t, .tcp, .recv, copied.toInt.toNat⟩
  | .kernel _ | .entry .. => none

/-- The bytes of a process in some traffic. -/
def trafficFor (ts : List Traffic) (tgid : UInt32) (p : Protocol) (d : Dir) : ℕ :=
  (ts.map fun m =>
    if m.thread.tgid = tgid ∧ m.protocol = p ∧ m.dir = d then m.bytes else 0).sum

theorem trafficFor_append (ts ts' : List Traffic) (tgid : UInt32) (p : Protocol) (d : Dir) :
    trafficFor (ts ++ ts') tgid p d = trafficFor ts tgid p d + trafficFor ts' tgid p d := by
  rw [trafficFor, List.map_append, List.sum_append]
  rfl

/-- The bytes that a call is passed are those that the function has moved. -/
theorem toNat_toU64_eq {ret : Int32} (h : 0 < ret) : (toU64 ret).toNat = ret.toInt.toNat := by
  have hret := toNat_toU64 h
  omega

/-- A function that fails has moved nothing. -/
theorem toNat_toInt_of_nonpos {ret : Int32} (h : ret ≤ 0) : ret.toInt.toNat = 0 := by
  have hle : ret.toInt ≤ 0 := Int32.le_iff_toInt_le.mp h
  omega

/-- What a call for a hooked function is passed. -/
theorem passes_accounts (f : Hook) (cpu : Fin n) (t : Thread) (addr : StatsAddr) (bytes : UInt64)
    (tgid : UInt32) (p : Protocol) (d : Dir) :
    (f.accounts cpu t addr bytes).passes tgid p d =
      trafficFor [⟨t, f.protocol, f.dir, bytes.toNat⟩] tgid p d := by
  by_cases htgid : t.tgid = tgid <;> cases f <;> cases p <;> cases d <;>
    simp [Hook.accounts, KernelStep.passes, Call.amount, trafficFor, Hook.protocol, Hook.dir,
      htgid]

namespace Probes

variable {e : Endian} {s s' : Probes n} {l : ProbeStep n}

/-! ### The kernel below the probes -/

/-- The step of the kernel that a step of the probes makes. -/
def kernelStep (e : Endian) (s : Probes n) : ProbeStep n → Option (KernelStep n)
  | .kernel l => some l
  | .entry .. => none
  | .exit f cpu t ret =>
    if 0 < ret then ((s.addrs f).lookup t).map fun addr => f.accounts cpu t addr (toU64 ret)
    else none
  | .cleanupRbuf cpu t sk copied =>
    if copied ≤ 0 then none else some (.enter cpu t (captureAddr e sk) 0 (toU64 copied) .tcp)

/-- The traffic that a step of the probes misses: that of a function without an address. -/
def misses (s : Probes n) : ProbeStep n → Option Traffic
  | .exit f cpu t ret =>
    if (s.addrs f).lookup t = none then (ProbeStep.exit f cpu t ret).traffic? else none
  | .kernel _ | .entry .. | .cleanupRbuf .. => none

/-- The run of the kernel below a run of the probes. -/
def kernelOf (e : Endian) (ls : List (ProbeStep n)) : List (KernelStep n) :=
  observe (step e) (kernelStep e) boot ls

/-- The traffic that a run of the probes misses. -/
def missedOf (e : Endian) (ls : List (ProbeStep n)) : List Traffic :=
  observe (step e) misses boot ls

theorem step_cleanupRbuf {cpu : Fin n} {t : Thread} {sk : Sock} {copied : Int32}
    (h : s.step e (.cleanupRbuf cpu t sk copied) = some s') :
    s'.addrs = s.addrs ∧ s'.inside = s.inside ∧
      exec Kernel.step s.kernel (s.kernelStep e (.cleanupRbuf cpu t sk copied)).toList =
        some s'.kernel := by
  simp only [step, procnetTcpCleanupRbuf, account] at h
  rw [kernelStep]
  split_ifs at h ⊢
  · obtain rfl := Option.some.inj h
    exact ⟨rfl, rfl, rfl⟩
  · obtain ⟨k, hk, rfl⟩ := Option.map_eq_some_iff.mp h
    exact ⟨rfl, rfl, (exec_singleton _ _).trans hk⟩

/-- **Every step of the probes** is one of the kernel, or none. -/
theorem exec_kernelStep (h : s.step e l = some s') :
    exec Kernel.step s.kernel (s.kernelStep e l).toList = some s'.kernel := by
  cases l with
  | kernel l =>
    obtain ⟨-, hs⟩ := Option.ite_none_right_eq_some.mp h
    obtain ⟨k, hk, rfl⟩ := Option.map_eq_some_iff.mp hs
    exact (exec_singleton _ _).trans hk
  | entry f t sk victim =>
    obtain ⟨-, m, -, rfl⟩ := step_entry h
    rfl
  | exit f cpu t ret =>
    obtain ⟨-, -, -, hneg, hpos⟩ := step_exit h
    rw [kernelStep]
    split_ifs with hret
    · obtain ⟨hnone, hsome⟩ := hpos hret
      cases hlookup : (s.addrs f).lookup t with
      | none =>
        rw [hnone hlookup]
        rfl
      | some addr => exact (exec_singleton _ _).trans (hsome addr hlookup)
    · rw [hneg (Int32.not_lt.mp hret)]
      rfl
  | cleanupRbuf cpu t sk copied => exact (step_cleanupRbuf h).2.2

/-- The step lemma: what a function has moved is passed to a call, or missed. -/
theorem traffic_step (h : s.step e l = some s') (tgid : UInt32) (p : Protocol) (d : Dir) :
    trafficFor l.traffic?.toList tgid p d =
      passed (s.kernelStep e l).toList tgid p d + trafficFor (s.misses l).toList tgid p d := by
  cases l with
  | kernel l =>
    -- Only the probes start calls.
    obtain ⟨hallows, -⟩ := Option.ite_none_right_eq_some.mp h
    cases l with
    | enter cpu t addr sent recv protocol => exact absurd hallows id
    | spawn t => rfl
    | run cpu => rfl
    | exit t => rfl
  | entry f t sk victim => rfl
  | exit f cpu t ret =>
    rw [kernelStep, misses, ProbeStep.traffic?]
    cases hlookup : (s.addrs f).lookup t with
    | none =>
      -- The function has no address any more.
      rw [if_pos rfl, Option.map_none, ite_self]
      simp [passed]
    | some addr =>
      rw [if_neg (Option.some_ne_none addr)]
      -- It has one, and either moved something or failed.
      split_ifs with hret
      · have hpasses := passes_accounts f cpu t addr (toU64 ret) tgid p d
        rw [toNat_toU64_eq hret] at hpasses
        simp [passed, hpasses, trafficFor]
      · simp [passed, trafficFor, toNat_toInt_of_nonpos (Int32.not_lt.mp hret)]
  | cleanupRbuf cpu t sk copied =>
    rw [kernelStep, misses, ProbeStep.traffic?]
    split_ifs with hcopied
    · simp [passed, trafficFor, toNat_toInt_of_nonpos hcopied]
    · have hbytes := toNat_toU64_eq (Int32.not_le.mp hcopied)
      by_cases htgid : t.tgid = tgid <;> cases p <;> cases d <;>
        simp [passed, KernelStep.passes, Call.amount, trafficFor, htgid, hbytes]

/-- **The traffic of a run**: the probes are a run of the kernel, whose calls are passed what the
functions have moved, but for what is missed. -/
structure Metered (e : Endian) (ls : List (ProbeStep n)) (s : Probes n) : Prop where
  kernel : exec Kernel.step .boot (kernelOf e ls) = some s.kernel
  traffic : ∀ tgid p d, trafficFor (ls.filterMap ProbeStep.traffic?) tgid p d =
    passed (kernelOf e ls) tgid p d + trafficFor (missedOf e ls) tgid p d

theorem metered_exec {ls : List (ProbeStep n)} (h : exec (step e) .boot ls = some s) :
    Metered e ls s := by
  refine exec_concat_rec (R := Metered e) ⟨rfl, fun _ _ _ => rfl⟩ (fun ls l s s' hls hs hl => ?_) h
  have hkernel : kernelOf e (ls ++ [l]) = kernelOf e ls ++ (s.kernelStep e l).toList :=
    observe_concat hls hl
  have hmissed : missedOf e (ls ++ [l]) = missedOf e ls ++ (s.misses l).toList :=
    observe_concat hls hl
  have htraffic : (ls ++ [l]).filterMap ProbeStep.traffic? =
      ls.filterMap ProbeStep.traffic? ++ l.traffic?.toList := by
    rw [List.filterMap_append]
    cases hl : l.traffic? <;> simp [hl]
  constructor
  · rw [hkernel]
    exact exec_append_eq_some.mpr ⟨s.kernel, hs.kernel, exec_kernelStep hl⟩
  · intro tgid p d
    have hpassed : passed (kernelOf e (ls ++ [l])) tgid p d =
        passed (kernelOf e ls) tgid p d + passed (s.kernelStep e l).toList tgid p d := by
      rw [hkernel, passed, List.map_append, List.sum_append]
      rfl
    rw [htraffic, hpassed, hmissed, trafficFor_append, trafficFor_append, hs.traffic,
      traffic_step hl]
    omega

/-! ### When nothing is missed -/

/-- There is room for the address of a thread that enters a function. -/
def Uncrowded (s : Probes n) : ProbeStep n → Prop
  | .entry f _ _ _ => (s.inside f).length < ADDRS_SIZE
  | .kernel _ | .exit .. | .cleanupRbuf .. => True

instance (s : Probes n) : DecidablePred s.Uncrowded
  | .entry .. => inferInstanceAs (Decidable (_ < _))
  | .kernel _ | .exit .. | .cleanupRbuf .. => inferInstanceAs (Decidable True)

/-- The threads in a function are those that have an address. -/
def Paired (s : Probes n) : Prop := ∀ f t, ((s.addrs f).lookup t).isSome ↔ t ∈ s.inside f

/-- The maps have an address for every thread in a function, and no other ones. -/
theorem Paired.step (hp : s.Paired) (hl : s.Uncrowded l) (h : s.step e l = some s') :
    s'.Paired := by
  cases l with
  | kernel l =>
    obtain ⟨-, hk⟩ := Option.ite_none_right_eq_some.mp h
    obtain ⟨k, -, rfl⟩ := Option.map_eq_some_iff.mp hk
    exact hp
  | cleanupRbuf cpu t sk copied =>
    obtain ⟨haddrs, hinside, -⟩ := step_cleanupRbuf h
    rw [Paired, haddrs, hinside]
    exact hp
  | entry f t sk victim =>
    obtain ⟨-, m, hm, rfl⟩ := step_entry h
    rintro f' t'
    by_cases hf : f' = f
    · -- The map is not full, and the other addresses stay.
      subst hf
      have hsize : (s.addrs f').size ≤ (s.inside f').length :=
        BoundedMap.size_le_length fun k hk => (hp f' k).mp hk
      have hroom : ¬ (s.addrs f').full := fun hfull =>
        Nat.not_le.mpr hl (Nat.le_trans hfull hsize)
      simp only [Function.update_self, BoundedMap.put_eq_some hm t', List.mem_cons]
      rw [if_neg fun hand : (s.addrs f').Evicts t ∧ t' = victim => hroom hand.1.2]
      by_cases ht : t' = t
      · simp [ht]
      · simp [ht, hp f' t']
    · simp only [Function.update_of_ne hf]
      exact hp f' t'
  | exit f cpu t ret =>
    obtain ⟨-, hinside, hlookup, -⟩ := step_exit h
    rintro f' t'
    rw [hlookup, hinside]
    by_cases hf : f' = f
    · subst hf
      by_cases ht : t' = t
      · simp [ht]
      · simp [ht, hp f' t']
    · simp [hf, hp f' t']

/-- **Nothing is missed** as long as the maps have room. -/
theorem missedOf_eq_nil {ls : List (ProbeStep n)} (h : exec (step e) .boot ls = some s)
    (hm : Meets (step e) Uncrowded .boot ls) : missedOf e ls = [] := by
  have hrun : s.Paired ∧ missedOf e ls = [] := by
    refine exec_observe (C := Uncrowded) (R := fun s missed => s.Paired ∧ missed = [])
      (fun s l s' missed hl hs hstep => ⟨hs.1.step hl hstep, ?_⟩) hm ⟨?_, rfl⟩ h
    · rw [hs.2, List.nil_append]
      cases l with
      | kernel | entry | cleanupRbuf => rfl
      | exit f cpu t ret =>
        have hsaved := (hs.1 f t).mpr (step_exit hstep).1
        rw [misses, if_neg (Option.isSome_iff_ne_none.mp hsaved)]
        rfl
    · simp [Paired, boot]
  exact hrun.2

end Probes

/-- A process sends over TCP, receives nothing over UDP, and receives over TCP. -/
def talking : List (ProbeStep 1) :=
  [.kernel (.spawn (leader 7)), .entry .tcpSendmsg (leader 7) default (leader 7),
    .exit .tcpSendmsg soleCpu (leader 7) 100, .kernel (.run soleCpu), .kernel (.run soleCpu),
    .kernel (.run soleCpu), .kernel (.run soleCpu),
    .entry .udpRecvmsg (leader 7) default (leader 7), .exit .udpRecvmsg soleCpu (leader 7) (-11),
    .cleanupRbuf soleCpu (leader 7) default 60, .kernel (.run soleCpu)]

end Procnet
