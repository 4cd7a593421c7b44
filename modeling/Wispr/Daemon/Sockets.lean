import Mathlib.Tactic

/-!
# Opening the sockets

`init_wispr_sockets`, the test of its result in `main`, and the return value of
`send_packet_withkey`, with the conversions of C. Descriptors are opened as `int` and stored in
fields of type `uint16_t`; a failed call stores -1 there, which the assignments at the end replace.
Seven of the failure branches free the record before they write to it. What the calls of the kernel
return is an input.
-/

namespace Wispr.Daemon.Sockets

/-- `socket`: a descriptor, or -1. -/
def SocketRet : Type := { value : ℤ // value = -1 ∨ 0 ≤ value }

/-- `setsockopt` and `bind`: zero, or -1. -/
def StatusRet : Type := { value : ℤ // value = -1 ∨ value = 0 }

/-- `sendto`: a number of bytes, or -1. -/
def SendRet : Type := { value : ℤ // -1 ≤ value }

/-- The calls whose failure marks the descriptors, in the order of the source. -/
structure Calls where
  sockfd : SocketRet
  rawsd : SocketRet
  sendfd : SocketRet
  reuseRawsd : StatusRet
  reuseSockfd : StatusRet
  reuseSendfd : StatusRet
  bindToDevice : StatusRet
  bindSockfd : StatusRet
  bindRawsd : StatusRet
  hdrincl : StatusRet

inductive Fault where
  | useAfterFree
  deriving DecidableEq, Repr

/-- `struct wisprsock`, without the names and the gateway address. -/
structure Wisprsock where
  wisprsd : UInt16
  sendsd : UInt16
  rawsd : UInt16
  deriving DecidableEq, Repr

/-- The allocated record, until it is freed. -/
abbrev Heap := Option Wisprsock

/-- An assignment to fields of the record. -/
def write (update : Wisprsock → Wisprsock) : Heap → Except Fault Heap
  | none => .error .useAfterFree
  | some wisprs => .ok (some (update wisprs))

/-- `destroy_wisprsock`. The descriptors it closes are not those of the calls before. -/
def destroyWisprsock : Heap → Except Fault Heap
  | none => .error .useAfterFree
  | some _ => .ok none

/-- The three assignments of -1. -/
def markFailed (wisprs : Wisprsock) : Wisprsock :=
  { wisprs with
    wisprsd := UInt16.ofInt (-1)
    sendsd := UInt16.ofInt (-1)
    rawsd := UInt16.ofInt (-1) }

/-- The last failure branch leaves `rawsd` alone. -/
def markHdrincl (wisprs : Wisprsock) : Wisprsock :=
  { wisprs with
    wisprsd := UInt16.ofInt (-1)
    sendsd := UInt16.ofInt (-1) }

/-- The branch of a failed `socket`. -/
def onSocketFailure (heap : Heap) : Except Fault Heap := write markFailed heap

/-- The branch of a failed `setsockopt` or `bind`. -/
def onFailure (update : Wisprsock → Wisprsock) (heap : Heap) : Except Fault Heap := do
  let heap ← destroyWisprsock heap
  write update heap

/-- The tests of the three calls of `socket`. -/
def socketBranches (calls : Calls) : List (Bool × (Heap → Except Fault Heap)) :=
  [(calls.sockfd.val = -1, onSocketFailure),
    (calls.rawsd.val = -1, onSocketFailure),
    (calls.sendfd.val = -1, onSocketFailure)]

/-- The tests of `setsockopt` and `bind`. -/
def statusBranches (calls : Calls) : List (Bool × (Heap → Except Fault Heap)) :=
  [(calls.reuseRawsd.val = -1, onFailure markFailed),
    (calls.reuseSockfd.val = -1, onFailure markFailed),
    (calls.reuseSendfd.val = -1, onFailure markFailed),
    (calls.bindToDevice.val = -1, onFailure markFailed),
    (calls.bindSockfd.val < 0, onFailure markFailed),
    (calls.bindRawsd.val < 0, onFailure markFailed),
    (calls.hdrincl.val < 0, onFailure markHdrincl)]

/-- The tests in order; none of the branches returns. -/
def runBranches : List (Bool × (Heap → Except Fault Heap)) → Heap → Except Fault Heap
  | [], heap => .ok heap
  | (failed, branch) :: rest, heap => do
      let heap ← if failed then branch heap else .ok heap
      runBranches rest heap

/-- The assignments at the end. -/
def storeDescriptors (calls : Calls) (_ : Wisprsock) : Wisprsock where
  wisprsd := UInt16.ofInt calls.sockfd.val
  sendsd := UInt16.ofInt calls.sendfd.val
  rawsd := UInt16.ofInt calls.rawsd.val

/-- `init_wispr_sockets`, on a record with arbitrary content. -/
def initWisprSockets (malloced : Wisprsock) (calls : Calls) : Except Fault Heap := do
  let heap ← runBranches (socketBranches calls ++ statusBranches calls) (some malloced)
  write (storeDescriptors calls) heap

inductive Outcome where
  | couldNotGrabSocket
  | packetLoop
  deriving DecidableEq, Repr

/-- A field of type `uint16_t` in a comparison. -/
def promote (value : UInt16) : ℤ := value.toNat

def main (malloced : Wisprsock) (calls : Calls) : Except Fault Outcome := do
  match ← initWisprSockets malloced calls with
  | none => .error .useAfterFree
  | some wisprs =>
      if promote wisprs.wisprsd < 0 ∨ promote wisprs.sendsd < 0 then return .couldNotGrabSocket
      else return .packetLoop

/-- The return value, from the results of the two calls of `sendto`. -/
def sendPacketWithkey (original mirror : SendRet) : ℤ :=
  let _sentbytes := UInt16.ofInt original.val
  let sentbytes := UInt16.ofInt mirror.val
  if promote sentbytes ≤ 0 then -1 else 1

/-! ## What the branches leave -/

theorem runBranches_append (first second : List (Bool × (Heap → Except Fault Heap)))
    (heap : Heap) :
    runBranches (first ++ second) heap =
      (runBranches first heap).bind (runBranches second) := by
  induction first generalizing heap with
  | nil => rfl
  | cons test rest ih =>
      obtain ⟨failed, branch⟩ := test
      cases failed with
      | false => exact ih heap
      | true =>
          cases hbranch : branch heap with
          | error fault => simp [runBranches, hbranch, bind, Except.bind]
          | ok next => simpa [runBranches, hbranch, bind, Except.bind] using ih next

/-- A failed `socket` keeps the record allocated. -/
theorem runBranches_of_socket {tests : List (Bool × (Heap → Except Fault Heap))}
    (hsocket : ∀ test ∈ tests, test.2 = onSocketFailure) (wisprs : Wisprsock) :
    ∃ marked, runBranches tests (some wisprs) = .ok (some marked) := by
  induction tests generalizing wisprs with
  | nil => exact ⟨wisprs, rfl⟩
  | cons test rest ih =>
      obtain ⟨failed, branch⟩ := test
      obtain rfl : branch = onSocketFailure := hsocket _ List.mem_cons_self
      have hrest : ∀ later ∈ rest, later.2 = onSocketFailure :=
        fun later hlater ↦ hsocket later (List.mem_cons_of_mem _ hlater)
      cases failed with
      | false => exact ih hrest wisprs
      | true => exact ih hrest (markFailed wisprs)

/-- A failed `setsockopt` or `bind` frees the record and then writes to it. -/
theorem runBranches_of_status {tests : List (Bool × (Heap → Except Fault Heap))}
    (hstatus : ∀ test ∈ tests, ∃ update, test.2 = onFailure update) (wisprs : Wisprsock) :
    runBranches tests (some wisprs) =
      if ∃ test ∈ tests, test.1 = true then .error .useAfterFree else .ok (some wisprs) := by
  induction tests with
  | nil => rfl
  | cons test rest ih =>
      obtain ⟨failed, branch⟩ := test
      obtain ⟨update, rfl⟩ : ∃ update, branch = onFailure update := hstatus _ List.mem_cons_self
      have hrest := ih fun later hlater ↦ hstatus later (List.mem_cons_of_mem _ hlater)
      cases failed with
      | true =>
          rw [if_pos ⟨_, List.mem_cons_self, rfl⟩]
          rfl
      | false =>
          have hsame : (∃ test ∈ (false, onFailure update) :: rest, test.1 = true) ↔
              ∃ test ∈ rest, test.1 = true := by
            simp
          simp only [hsame, ← hrest]
          rfl

def SocketFailed (calls : Calls) : Prop :=
  calls.sockfd.val = -1 ∨ calls.rawsd.val = -1 ∨ calls.sendfd.val = -1

def StatusFailed (calls : Calls) : Prop :=
  calls.reuseRawsd.val = -1 ∨ calls.reuseSockfd.val = -1 ∨ calls.reuseSendfd.val = -1 ∨
    calls.bindToDevice.val = -1 ∨ calls.bindSockfd.val = -1 ∨ calls.bindRawsd.val = -1 ∨
    calls.hdrincl.val = -1

/-- Some call whose failure marks the descriptors failed. -/
def Failed (calls : Calls) : Prop := SocketFailed calls ∨ StatusFailed calls

instance (calls : Calls) : Decidable (StatusFailed calls) := by
  unfold StatusFailed
  infer_instance

/-- The two ways the source tests a status agree. -/
theorem StatusRet.lt_zero_iff (status : StatusRet) : status.val < 0 ↔ status.val = -1 := by
  have := status.property
  omega

theorem statusFailed_iff (calls : Calls) :
    StatusFailed calls ↔ ∃ test ∈ statusBranches calls, test.1 = true := by
  simp [StatusFailed, statusBranches, StatusRet.lt_zero_iff]

theorem initWisprSockets_eq (malloced : Wisprsock) (calls : Calls) :
    initWisprSockets malloced calls =
      if StatusFailed calls then .error .useAfterFree
      else .ok (some (storeDescriptors calls malloced)) := by
  obtain ⟨marked, hsocket⟩ := @runBranches_of_socket (socketBranches calls)
    (by simp [socketBranches]) malloced
  have hstatus := @runBranches_of_status (statusBranches calls)
    (by simp [statusBranches]) marked
  simp only [← statusFailed_iff] at hstatus
  rw [initWisprSockets, runBranches_append, hsocket]
  simp only [Except.bind, hstatus]
  split <;> rfl

/-- No stored value is negative, so `main` never takes its error branch. -/
theorem main_eq (malloced : Wisprsock) (calls : Calls) :
    main malloced calls =
      if StatusFailed calls then .error .useAfterFree else .ok .packetLoop := by
  have hpositive : ∀ value : UInt16, ¬ promote value < 0 := fun value ↦ by
    simp [promote]
  rw [main, initWisprSockets_eq]
  split
  · rfl
  · simp [bind, Except.bind, hpositive, pure, Except.pure]

theorem promote_ofInt (value : ℤ) : promote (UInt16.ofInt value) = value % 65536 := by
  have hmod : 0 ≤ value % 65536 ∧ value % 65536 < 65536 := by omega
  simp [promote, UInt16.ofInt]
  omega

/-- A failed call makes `main` report it. -/
def FailureReported (malloced : Wisprsock) (calls : Calls) : Prop :=
  Failed calls → main malloced calls = .ok .couldNotGrabSocket

/-- Without a failure the fields hold the descriptors opened. -/
def DescriptorsStored (malloced : Wisprsock) (calls : Calls) : Prop :=
  ¬ Failed calls →
    ∃ wisprs, initWisprSockets malloced calls = .ok (some wisprs) ∧
      promote wisprs.wisprsd = calls.sockfd.val ∧
      promote wisprs.sendsd = calls.sendfd.val ∧
      promote wisprs.rawsd = calls.rawsd.val

/-- Success of `send_packet_withkey` means that both copies were accepted. -/
def SendReported (original mirror : SendRet) : Prop :=
  (sendPacketWithkey original mirror = 1 → 0 < original.val ∧ 0 < mirror.val) ∧
    (¬ (0 < original.val ∧ 0 < mirror.val) → sendPacketWithkey original mirror = -1)

theorem not_failureReported {malloced : Wisprsock} {calls : Calls} (hfailed : Failed calls) :
    ¬ FailureReported malloced calls := by
  intro hreported
  have hmain := hreported hfailed
  rw [main_eq] at hmain
  split at hmain <;> cases hmain

theorem descriptorsStored_iff {malloced : Wisprsock} {calls : Calls} (hnone : ¬ Failed calls) :
    DescriptorsStored malloced calls ↔
      calls.sockfd.val < 65536 ∧ calls.sendfd.val < 65536 ∧ calls.rawsd.val < 65536 := by
  obtain ⟨hsocket, hstatus⟩ := not_or.mp hnone
  have hsockfd := calls.sockfd.property
  have hsendfd := calls.sendfd.property
  have hrawsd := calls.rawsd.property
  simp only [SocketFailed] at hsocket
  simp only [DescriptorsStored, hnone, not_false_eq_true, true_imp_iff, initWisprSockets_eq,
    if_neg hstatus, Except.ok.injEq, Option.some.injEq, exists_eq_left', storeDescriptors,
    promote_ofInt]
  omega

/-- Only the second result decides, after its conversion. -/
theorem sendPacketWithkey_eq (original mirror : SendRet) :
    sendPacketWithkey original mirror = if mirror.val % 65536 = 0 then -1 else 1 := by
  have hnonneg : 0 ≤ mirror.val % 65536 := Int.emod_nonneg _ (by decide)
  have hle : promote (UInt16.ofInt mirror.val) ≤ 0 ↔ mirror.val % 65536 = 0 := by
    rw [promote_ofInt]
    omega
  simp only [sendPacketWithkey, hle]

theorem sendReported_iff (original mirror : SendRet) :
    SendReported original mirror ↔
      (0 < original.val ∧ 0 < mirror.val) ∨ mirror.val % 65536 = 0 := by
  rw [SendReported, sendPacketWithkey_eq]
  split
  case isTrue hzero => simp [hzero]
  case isFalse hzero => simp [hzero]

/-- The start of the daemon never reports a failure, and the copies are reported by the second
result alone. -/
theorem failures_reported_iff (malloced : Wisprsock) (calls : Calls) (original mirror : SendRet) :
    (FailureReported malloced calls ∧ DescriptorsStored malloced calls ↔
      ¬ Failed calls ∧ calls.sockfd.val < 65536 ∧ calls.sendfd.val < 65536 ∧
        calls.rawsd.val < 65536) ∧
      (SendReported original mirror ↔
        (0 < original.val ∧ 0 < mirror.val) ∨ mirror.val % 65536 = 0) := by
  refine ⟨?_, sendReported_iff original mirror⟩
  by_cases hfailed : Failed calls
  · have hnot := @not_failureReported malloced calls hfailed
    tauto
  · rw [← @descriptorsStored_iff malloced calls hfailed]
    simp only [FailureReported, hfailed, false_imp_iff, not_false_eq_true, true_and]

/-- Every call succeeds. -/
def opened : Calls where
  sockfd := ⟨3, Or.inr (by decide)⟩
  rawsd := ⟨4, Or.inr (by decide)⟩
  sendfd := ⟨5, Or.inr (by decide)⟩
  reuseRawsd := ⟨0, Or.inr rfl⟩
  reuseSockfd := ⟨0, Or.inr rfl⟩
  reuseSendfd := ⟨0, Or.inr rfl⟩
  bindToDevice := ⟨0, Or.inr rfl⟩
  bindSockfd := ⟨0, Or.inr rfl⟩
  bindRawsd := ⟨0, Or.inr rfl⟩
  hdrincl := ⟨0, Or.inr rfl⟩

/-- The interface to bind to does not exist. -/
def missingInterface : Calls :=
  { opened with bindToDevice := ⟨-1, Or.inl rfl⟩ }

/-- The first `socket` is the only call that fails. -/
def refusedListener : Calls :=
  { opened with sockfd := ⟨-1, Or.inl rfl⟩ }

/-- A missing interface writes to freed memory, a missing listener starts the packet loop, and a
lost second copy counts as sent. -/
theorem failures_unreported :
    (Failed missingInterface ∧ main ⟨0, 0, 0⟩ missingInterface = .error .useAfterFree ∧
      ¬ FailureReported ⟨0, 0, 0⟩ missingInterface) ∧
    (Failed refusedListener ∧ main ⟨0, 0, 0⟩ refusedListener = .ok .packetLoop ∧
      ¬ FailureReported ⟨0, 0, 0⟩ refusedListener) ∧
    sendPacketWithkey ⟨68, by decide⟩ ⟨-1, by decide⟩ = 1 ∧
    ¬ SendReported ⟨68, by decide⟩ ⟨-1, by decide⟩ := by
  have hmissing : Failed missingInterface :=
    Or.inr (Or.inr (Or.inr (Or.inr (Or.inl rfl))))
  have hrefused : Failed refusedListener := Or.inl (Or.inl rfl)
  refine ⟨⟨hmissing, by rfl, not_failureReported hmissing⟩,
    ⟨hrefused, by rfl, not_failureReported hrefused⟩, by rfl, ?_⟩
  intro hreported
  exact absurd (hreported.1 rfl).2 (by decide)

end Wispr.Daemon.Sockets
