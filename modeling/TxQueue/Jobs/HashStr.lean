import TxQueue.Jobs.TransmisionEndToEnd
import TxQueue.Utests.Text

/-!
# The hashes that the programs print

A job updates the status of its verification with every chunk, and `get_hash_str` writes the digest
at the end. The status is fed chunk by chunk, and the block in it that nothing initialises differs
from job to job; the text depends on neither. So the texts of both sides are that of the source,
and the comparison at the end of the program with both jobs in one process never fails.
-/

namespace TxQueue

open Library

/-- `everification`. -/
inductive Everification where
  | none
  | checksum
  | sha256
  deriving DecidableEq

/-- The two statuses of `utest_job`. `none` is one whose `update` has not returned. -/
structure HashStatus where
  checksumHashStatus_ : Option Checksum.Status
  sha256HashStatus_ : Option Sha256.Status

namespace Everification

/-- The calls of `update` in the jobs. -/
def update (verification : Everification) (status : HashStatus) (data : List UInt8) : HashStatus :=
  match verification with
  | none => status
  | checksum => { status with
      checksumHashStatus_ := status.checksumHashStatus_.bind (Checksum.update · data) }
  | sha256 => { status with
      sha256HashStatus_ := status.sha256HashStatus_.bind (Sha256.update · data) }

/-- The hash of a job of which the SHA-256 status holds `block` at the start. -/
def hashes (verification : Everification) (block : Vector UInt8 64) : Verification HashStatus where
  init := ⟨some {}, some { currBlock := block }⟩
  update := verification.update

/-- `get_hash_str`. -/
def getHashStr (verification : Everification) (status : HashStatus) : Option String :=
  match verification with
  | none => some ""
  | checksum => do
      let status ← status.checksumHashStatus_
      return Checksum.toString (Checksum.toDigest status)
  | sha256 => do
      let status ← status.sha256HashStatus_
      let digest ← Sha256.toDigest status
      return Sha256.toString digest

/-- The text that a buffer should have: the hexadecimal digits of the sum of its bytes modulo 2^32,
or of the bytes of its message digest. -/
def text (verification : Everification) (data : List UInt8) : String :=
  match verification with
  | none => ""
  | checksum => String.ofList (Nat.toDigits 16 ((data.map UInt8.toNat).sum % 2 ^ 32))
  | sha256 => String.ofList ((Fips180.sha256 data).flatMap hexByte)

variable {chunks : List (List UInt8)}

/-- Chunks of fewer than 2^32 bytes add up in the checksum. -/
theorem foldl_checksum (status : HashStatus) {start : Checksum.Status}
    (hchunks : ∀ chunk ∈ chunks, chunk.length < 2 ^ 32)
    (hstatus : status.checksumHashStatus_ = some start) :
    (chunks.foldl checksum.update status).checksumHashStatus_ =
      some ⟨start.checksum + UInt32.ofNat (chunks.flatten.map UInt8.toNat).sum⟩ := by
  induction chunks generalizing status start with
  | nil => simpa using hstatus
  | cons chunk chunks ih =>
      rw [List.forall_mem_cons] at hchunks
      have hnext : (checksum.update status chunk).checksumHashStatus_ =
          some ⟨start.checksum + UInt32.ofNat (chunk.map UInt8.toNat).sum⟩ := by
        rw [update, hstatus, Option.bind_some, Checksum.update_eq_some start hchunks.1]
      rw [List.foldl_cons, ih _ hchunks.2 hnext, List.flatten_cons, List.map_append,
        List.sum_append, UInt32.ofNat_add, UInt32.add_assoc]

/-- Chunks go behind each other into the stream of SHA-256. -/
theorem foldl_sha256 (status : HashStatus) {start : Sha256.Status} {message : List UInt8}
    (hlt : chunks.flatten.length < 2 ^ 64) (hstatus : status.sha256HashStatus_ = some start)
    (hstreamed : Sha256.Streamed start message) :
    ∃ last, (chunks.foldl sha256.update status).sha256HashStatus_ = some last ∧
      Sha256.Streamed last (message ++ chunks.flatten) := by
  induction chunks generalizing status start message with
  | nil => exact ⟨start, hstatus, by simpa using hstreamed⟩
  | cons chunk chunks ih =>
      rw [List.flatten_cons, List.length_append] at hlt
      obtain ⟨next, hnext, hstreamed'⟩ :=
        Sha256.update_streamed hstreamed (by omega : chunk.length < 2 ^ 64)
      have hstatus' : (sha256.update status chunk).sha256HashStatus_ = some next := by
        rw [update, hstatus, Option.bind_some, hnext]
      obtain ⟨last, hlast, hdone⟩ := ih _ (by omega) hstatus' hstreamed'
      exact ⟨last, hlast, by rwa [List.flatten_cons, ← List.append_assoc]⟩

/-- After any chunks the text is that of the bytes, whatever the block held at the start. -/
theorem getHashStr_foldl (verification : Everification) (block : Vector UInt8 64)
    (hchunks : ∀ chunk ∈ chunks, chunk.length < 2 ^ 32) (hlt : chunks.flatten.length < 2 ^ 61) :
    verification.getHashStr
      (chunks.foldl (verification.hashes block).update (verification.hashes block).init) =
      some (verification.text chunks.flatten) := by
  cases verification with
  | none => rfl
  | checksum =>
      have hsum := foldl_checksum (checksum.hashes block).init hchunks rfl
      simp only [getHashStr, hashes] at hsum ⊢
      rw [hsum]
      simp [Checksum.toDigest, Checksum.toString, text]
  | sha256 =>
      obtain ⟨last, hlast, hstreamed⟩ := foldl_sha256 (sha256.hashes block).init
        (hlt.trans (by decide)) rfl (Sha256.streamed_fresh block)
      obtain ⟨digest, hdigest, hbytes⟩ := Sha256.toDigest_streamed hstreamed hlt
      simp only [getHashStr, hashes] at hlast ⊢
      rw [hlast]
      simp [hdigest, Sha256.toString_eq_bytes, hbytes, text]

end Everification

/-- The producer's chunks give the text of its source. -/
theorem Sending.getHashStr {σ : Type*} {source : TransmitBuffer} {verification : Verification σ}
    {t : Transmitter σ} {valid : Bool} {h : History} {sent : List (List UInt8)}
    (hi : Sending source verification t valid h sent) (hsource : sent.flatten = source.srcData_)
    (hchunk : source.maxChunkSize_.toNat < 2 ^ 32) (hlt : source.srcData_.length < 2 ^ 61)
    (v : Everification) (block : Vector UInt8 64) :
    v.getHashStr (sent.foldl (v.hashes block).update (v.hashes block).init) =
      some (v.text source.srcData_) := by
  rw [← hsource] at hlt ⊢
  exact v.getHashStr_foldl block (fun data hdata => (hi.chunks data hdata).2.trans_lt hchunk) hlt

/-! ## The inter-process programs -/

/-- The two programs, each with the verification of its command line. -/
def TransmisionSetup.ofHashes (source : TransmitBuffer) (timestamp : Int64) (maxChunkSize : UInt64)
    (v v' : Everification) (block block' : Vector UInt8 64) :
    TransmisionSetup HashStatus HashStatus where
  source := source
  timestamp := timestamp
  maxChunkSize := maxChunkSize
  producerVerification := v.hashes block
  consumerVerification := v'.hashes block'

namespace TransmisionDelivery

variable {queue : RingQueue} {source : TransmitBuffer} {timestamp : Int64} {maxChunkSize : UInt64}
  {v v' : Everification} {block block' : Vector UInt8 64}
  {w : TransmisionWorld HashStatus HashStatus}

/-- When the producer's job is over, its text is that of the source. -/
theorem getHashStr_transmit {t : Transmitter HashStatus}
    (hchunk : source.maxChunkSize_.toNat < 2 ^ 32) (hlt : source.srcData_.length < 2 ^ 61)
    (hi : TransmisionDelivery queue.toBaseTxQueue
      (.ofHashes source timestamp maxChunkSize v v' block block') w)
    (htransmit : w.state.transmit = .job t) (hquit : t.control = .quit) :
    v.getHashStr t.job.hashStatus_ = some (v.text source.srcData_) := by
  have hsending := hi.sending
  rw [htransmit] at hsending
  obtain ⟨h, -, hsending⟩ := hsending
  have hplaced := hsending.control
  rw [hquit] at hplaced
  rw [hsending.hash]
  exact hsending.getHashStr hplaced.2 hchunk hlt v block

/-- When the consumer's job is over, so is the producer's, and its text is that of the source. -/
theorem getHashStr_receive {startTime : Int64} {r : Receiver HashStatus}
    (hchunk : source.maxChunkSize_.toNat < 2 ^ 32) (hlt : source.srcData_.length < 2 ^ 61)
    (htime : timestamp ≠ 0) (hi : TransmisionDelivery queue.toBaseTxQueue
      (.ofHashes source timestamp maxChunkSize v v' block block') w)
    (hreceive : w.state.receive = .job startTime r) (hquit : r.control = .quit) :
    v'.getHashStr r.job.hashStatus_ = some (v'.text source.srcData_) ∧
      ∃ t, w.state.transmit = .job t ∧ t.control = .quit := by
  obtain ⟨-, h, h', hsending, hreceiving, hread⟩ := hi.exists_receiving htime hreceive
  obtain ⟨heq, hsource, hquit'⟩ :=
    (hreceiving.accepted_isPrefix hsending hread).2 (by rw [hquit]; trivial)
  refine ⟨?_, _, ProducerTransmision.eq_job_of_quit hquit', hquit'⟩
  rw [hreceiving.hash, heq]
  exact hsending.getHashStr hsource hchunk hlt v' block'

end TransmisionDelivery

/-- In every run of the two inter-process programs each prints the text of the source in its own
verification: the producer when its job is over, and the consumer when its job is over, behind that
of the producer. -/
theorem transmision_hash_str (queue : RingQueue) (source : TransmitBuffer) (timestamp : Int64)
    (maxChunkSize : UInt64) (v v' : Everification) (block block' : Vector UInt8 64)
    (hmin : 1 ≤ source.minChunkSize_) (hchunk : source.maxChunkSize_.toNat < 2 ^ 32)
    (hlt : source.srcData_.length < 2 ^ 61) (hroom : 8 ≤ queue.capacity.toNat)
    (htime : timestamp ≠ 0) {start w : TransmisionWorld HashStatus HashStatus}
    {ts : List (Transition (TransmisionWorld HashStatus HashStatus) TransferEvent)}
    (hstart : (transmisionWorldLts queue.toBaseTxQueue
      (.ofHashes source timestamp maxChunkSize v v' block block') .everyLoad).initial start)
    (hrun : Run (transmisionWorldLts queue.toBaseTxQueue
      (.ofHashes source timestamp maxChunkSize v v' block block') .everyLoad) start ts w) :
    (∀ t, w.state.transmit = .job t → t.control = .quit →
      v.getHashStr t.job.hashStatus_ = some (v.text source.srcData_)) ∧
    ∀ startTime r, w.state.receive = .job startTime r → r.control = .quit →
      v'.getHashStr r.job.hashStatus_ = some (v'.text source.srcData_) ∧
      ∃ t, w.state.transmit = .job t ∧ t.control = .quit := by
  let setup : TransmisionSetup HashStatus HashStatus :=
    .ofHashes source timestamp maxChunkSize v v' block block'
  have hi : TransmisionDelivery queue.toBaseTxQueue setup w :=
    hrun.invariant (.of_initial hstart) fun _ _ _ hi hstep => hi.step hmin hroom hstep
  exact ⟨fun t htransmit hquit => hi.getHashStr_transmit hchunk hlt htransmit hquit,
    fun startTime r hreceive hquit => hi.getHashStr_receive hchunk hlt htime hreceive hquit⟩

/-- `transmision_hash_str` on a transfer of three bytes, with the checksum in one program and
SHA-256 in the other. -/
theorem transmision_hash_str_three_bytes : ∃ ts w r t,
    Run (transmisionWorldLts frameQueue.toBaseTxQueue (.ofHashes threeBytes 5 2 .checksum .sha256
      (Vector.replicate 64 0) (Vector.replicate 64 7)) .everyLoad)
      (freshTransmision frameQueue.toBaseTxQueue) ts w ∧
    w.state.receive = .job 5 r ∧ w.state.transmit = .job t ∧
    Everification.sha256.getHashStr r.job.hashStatus_ =
      some (Everification.sha256.text [1, 2, 3]) ∧
    Everification.checksum.getHashStr t.job.hashStatus_ = some "6" := by
  let setup : TransmisionSetup HashStatus HashStatus :=
    .ofHashes threeBytes 5 2 .checksum .sha256 (Vector.replicate 64 0) (Vector.replicate 64 7)
  have hstart := freshTransmision_initial frameQueue.toBaseTxQueue setup .everyLoad
  obtain ⟨w, r, ⟨ts, hrun, -⟩, hreceive, hquit, -⟩ :=
    (TransmisionDelivery.of_initial hstart).leads_quit (by decide) (by decide) (by decide)
      ⟨by decide, fun _ => by decide⟩ (by decide) ⟨rfl, rfl, trivial, trivial⟩
  obtain ⟨hproducer, hconsumer⟩ := transmision_hash_str frameQueue threeBytes 5 2 .checksum .sha256
    (Vector.replicate 64 0) (Vector.replicate 64 7) (by decide) (by decide) (by decide) (by decide)
    (by decide) hstart hrun
  obtain ⟨htext, t, htransmit, hquit'⟩ := hconsumer 5 r hreceive hquit
  exact ⟨ts, w, r, t, hrun, hreceive, htransmit, htext, hproducer t htransmit hquit'⟩

/-! ## Both jobs in one process -/

/-- What `transmision` of the program with both jobs in one process returns. It has returned when
both threads are joined. -/
def transmisionSp (verification : Everification) (producerJob : Transmitter HashStatus)
    (consumerJob : Receiver HashStatus) : Option ℤ :=
  if producerJob.control = .quit ∧ consumerJob.control = .quit then
    if verification ≠ .none then do
      let producerHash ← verification.getHashStr producerJob.job.hashStatus_
      let consumerHash ← verification.getHashStr consumerJob.job.hashStatus_
      return if producerHash ≠ consumerHash then 1 else 0
    else some 0
  else none

/-- The hashes of the two jobs: the same verification, each with a block of its own. -/
def Everification.jobs (v : Everification) (block block' : Vector UInt8 64) :
    Verification (HashStatus × HashStatus) :=
  (v.hashes block).prod (v.hashes block')

/-- What the program returns in a state of the transfer. -/
def TransferWorld.result (v : Everification) (w : TransferWorld (HashStatus × HashStatus)) :
    Option ℤ :=
  transmisionSp v (w.state.transmit.map Prod.fst) (w.state.receive.map Prod.snd)

section Result

variable {queue : RingQueue} {source : TransmitBuffer} {v : Everification}
  {block block' : Vector UInt8 64} {w : TransferWorld (HashStatus × HashStatus)}

/-- When the consumer has quit, both texts are that of the source. -/
theorem Delivery.getHashStr (hchunk : source.maxChunkSize_.toNat < 2 ^ 32)
    (hlt : source.srcData_.length < 2 ^ 61)
    (hi : Delivery queue.toBaseTxQueue source (v.jobs block block') w)
    (hquit : w.state.receive.control = .quit) :
    v.getHashStr w.state.transmit.job.hashStatus_.1 = some (v.text source.srcData_) ∧
    v.getHashStr w.state.receive.job.hashStatus_.2 = some (v.text source.srcData_) := by
  obtain ⟨heq, hsource⟩ := hi.messages_isPrefix.2 (by rw [hquit]; trivial)
  rw [hi.sending.hash, hi.receiving.hash, heq, Everification.jobs, Verification.foldl_prod]
  exact ⟨hi.sending.getHashStr hsource hchunk hlt v block,
    hi.sending.getHashStr hsource hchunk hlt v block'⟩

/-- The program has returned if and only if the consumer has quit, and then it has returned 0. -/
theorem Delivery.result_eq (hchunk : source.maxChunkSize_.toNat < 2 ^ 32)
    (hlt : source.srcData_.length < 2 ^ 61)
    (hi : Delivery queue.toBaseTxQueue source (v.jobs block block') w) :
    w.result v = if w.state.receive.control = .quit then some 0 else none := by
  by_cases hquit : w.state.receive.control = .quit
  · obtain ⟨htransmit, hreceive⟩ := hi.getHashStr hchunk hlt hquit
    have hquit' := hi.transmit_quit (by rw [hquit]; trivial)
    rw [if_pos hquit, TransferWorld.result, transmisionSp, if_pos ⟨hquit', hquit⟩]
    split
    · simp [Transmitter.map, Receiver.map, UtestJob.map, htransmit, hreceive]
    · rfl
  · rw [if_neg hquit]
    exact if_neg fun h => hquit h.2

end Result

/-- In every run of both jobs in one process, the program has returned if and only if the consumer
has quit, and then it has returned 0: the texts that it compares are both that of the source. -/
theorem transmision_sp_result (queue : RingQueue) (source : TransmitBuffer)
    (maxChunkSize : UInt64) (v : Everification) (block block' : Vector UInt8 64)
    (hmin : 1 ≤ source.minChunkSize_) (hchunk : source.maxChunkSize_.toNat < 2 ^ 32)
    (hlt : source.srcData_.length < 2 ^ 61)
    {start w : TransferWorld (HashStatus × HashStatus)}
    {ts : List (Transition (TransferWorld (HashStatus × HashStatus)) TransferEvent)}
    (hstart : (transferWorldLts queue.toBaseTxQueue source (v.jobs block block') maxChunkSize
      .everyLoad).initial start)
    (hrun : Run (transferWorldLts queue.toBaseTxQueue source (v.jobs block block') maxChunkSize
      .everyLoad) start ts w) :
    w.result v = (if w.state.receive.control = .quit then some 0 else none) ∧
    (w.state.receive.control = .quit →
      v.getHashStr w.state.transmit.job.hashStatus_.1 = some (v.text source.srcData_) ∧
      v.getHashStr w.state.receive.job.hashStatus_.2 = some (v.text source.srcData_)) := by
  have hi := Delivery.of_run hmin hstart hrun
  exact ⟨hi.result_eq hchunk hlt, hi.getHashStr hchunk hlt⟩

/-- `transmision_sp_result` on a transfer of three bytes that comes to its end. -/
theorem transmision_sp_result_three_bytes : ∃ ts w,
    Run (transferWorldLts frameQueue.toBaseTxQueue threeBytes
      (Everification.sha256.jobs (Vector.replicate 64 0) (Vector.replicate 64 7)) 2 .everyLoad)
      (freshTransfer frameQueue.toBaseTxQueue
        (Everification.sha256.jobs (Vector.replicate 64 0) (Vector.replicate 64 7)) 2) ts w ∧
    w.result .sha256 = some 0 := by
  let hashes := Everification.sha256.jobs (Vector.replicate 64 0) (Vector.replicate 64 7)
  have hstart := freshTransfer_initial frameQueue.toBaseTxQueue threeBytes hashes 2 .everyLoad
  obtain ⟨w, ⟨ts, hrun, -⟩, hquit⟩ := (Delivery.of_initial hstart).leads_quit 2
    (by decide) (by decide) (by decide) (by decide) ⟨rfl, rfl, trivial, rfl⟩
  obtain ⟨hresult, -⟩ := transmision_sp_result frameQueue threeBytes 2 .sha256
    (Vector.replicate 64 0) (Vector.replicate 64 7) (by decide) (by decide) (by decide) hstart hrun
  exact ⟨ts, w, hrun, hresult.trans (if_pos hquit)⟩

end TxQueue
