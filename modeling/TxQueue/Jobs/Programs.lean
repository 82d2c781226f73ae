import TxQueue.Construction
import TxQueue.Jobs.HashStr
import TxQueue.Jobs.Livelock
import TxQueue.Jobs.TransmisionTermination

/-!
# The transmission tests as they are configured

The sample has 1 GiB of random bytes, and a chunk has between 147 bytes and 8 KiB. The largest chunk
needs 8 bytes more for its size, so a ring of 8 KiB does not do, and the next power of two does. The
programs ask for 16 KiB.
-/

namespace TxQueue

open Library

/-- `operator""_KiB`. -/
def kib (amount : UInt64) : UInt64 := 1024 * amount

/-- `operator""_GiB`. -/
def gib (amount : UInt64) : UInt64 := 1024 * 1024 * 1024 * amount

/-- `k_sample_size`. -/
def kSampleSize : UInt64 := gib 1

/-- `k_queue_size`. -/
def kQueueSize : UInt64 := kib 16

/-- `k_max_chunk_size`. -/
def kMaxChunkSize : UInt64 := kib 8

/-- `sample_data`, with the random bytes in it. -/
structure Sample where
  sampleData : List UInt8
  length_eq : sampleData.length = kSampleSize.toNat

namespace Sample

variable (sample : Sample)

/-- What `set_data` and `set_minmax_chunk_size` leave in the producer's job. -/
def transmitBuffer : TransmitBuffer where
  srcData_ := sample.sampleData
  minChunkSize_ := 147
  maxChunkSize_ := kMaxChunkSize
  fitsWord := by
    rw [FitsWord, sample.length_eq]
    decide

theorem one_le_minChunkSize : 1 ≤ sample.transmitBuffer.minChunkSize_ :=
  show (1 : UInt64) ≤ 147 by decide

theorem minChunkSize_le :
    sample.transmitBuffer.minChunkSize_ ≤ sample.transmitBuffer.maxChunkSize_ :=
  show (147 : UInt64) ≤ kMaxChunkSize by decide

theorem maxChunkSize_lt : sample.transmitBuffer.maxChunkSize_.toNat < 2 ^ 32 :=
  show kMaxChunkSize.toNat < 2 ^ 32 by decide

theorem length_srcData : sample.transmitBuffer.srcData_.length = 2 ^ 30 := sample.length_eq

/-- Any chunk that can be drawn fits a ring of more than 8 KiB. -/
theorem fits_iff (queue : RingQueue) :
    min sample.transmitBuffer.maxChunkSize_.toNat sample.transmitBuffer.srcData_.length + 8 ≤
      queue.capacity.toNat ↔ kMaxChunkSize < queue.capacity_ := by
  have hcapacity : queue.capacity.toNat = queue.capacity_.toNat - 1 :=
    sub_one_toNat queue.isPowTwo.pos
  have hmin : min sample.transmitBuffer.maxChunkSize_.toNat
      sample.transmitBuffer.srcData_.length = 2 ^ 13 := by
    rw [sample.length_srcData]
    rfl
  obtain ⟨k, hk⟩ := queue.isPowTwo
  rw [hmin, hcapacity, UInt64.lt_iff_toNat_lt, show kMaxChunkSize.toNat = 2 ^ 13 from rfl, hk,
    Nat.pow_lt_pow_iff_right Nat.one_lt_two]
  constructor
  · intro hle
    refine (Nat.pow_lt_pow_iff_right Nat.one_lt_two).1 ?_
    omega
  · intro hlt
    have hle : 2 ^ 14 ≤ 2 ^ k := Nat.pow_le_pow_right Nat.two_pos hlt
    omega

end Sample

/-! ## Both jobs in one process -/

/-- A sample of zeros. -/
def zeroSample : Sample where
  sampleData := List.replicate kSampleSize.toNat 0
  length_eq := List.length_replicate

/-- The queue that the constructor leaves on a valid block. -/
def ringQueueMp (address size : UInt64) (haddress : ValidAddress address)
    (hsize : ValidSize size) : RingQueue where
  toBaseTxQueue := txQueueMp address size
  isPowTwo := by
    rw [txQueueMp_eq haddress hsize]
    exact hsize.isPowTwo

/-- The test with a job in each process, on shared memory with room for the status and a ring of
more than 8 KiB, for any sample and any verification of either program: in every execution in which
both programs keep running and their checks see the stores after some time, both come to their ends,
and each prints the text of the sample in its own verification. -/
theorem test_mp_prints (address size : UInt64) (haddress : ValidAddress address)
    (hsize : ValidSize size) (hend : address.toNat + size.toNat ≤ 2 ^ 64)
    (hring : kMaxChunkSize < size - sizeofTxQueueStatus) (sample : Sample) (timestamp : Int64)
    (htime : timestamp ≠ 0) (v v' : Everification) (block block' : Vector UInt8 64)
    (x : Execution (transmisionWorldLts (ringQueueMp address size haddress hsize).toBaseTxQueue
      (.ofHashes sample.transmitBuffer timestamp kMaxChunkSize v v' block block') .everyLoad))
    (hstart : (transmisionWorldLts (ringQueueMp address size haddress hsize).toBaseTxQueue
      (.ofHashes sample.transmitBuffer timestamp kMaxChunkSize v v' block block')
      .everyLoad).initial (x.state 0))
    (hruns : ProgramsKeepRunning x) (hsees : ProgramsSeeStores x) :
    ∃ n t r, (x.state n).state.transmit = .job t ∧ t.control = .quit ∧
      (x.state n).state.receive = .job timestamp r ∧ r.control = .quit ∧
      v.getHashStr t.job.hashStatus_ = some (v.text sample.sampleData) ∧
      v'.getHashStr r.job.hashStatus_ = some (v'.text sample.sampleData) := by
  let queue := ringQueueMp address size haddress hsize
  have hcapacity : queue.capacity_ = size - sizeofTxQueueStatus := by
    show (txQueueMp address size).capacity_ = _
    rw [txQueueMp_eq haddress hsize]
  have hfits := (sample.fits_iff queue).2 (hcapacity ▸ hring)
  have hlt : sample.transmitBuffer.srcData_.length < 2 ^ 61 := by
    rw [sample.length_srcData]
    decide
  obtain ⟨n, hi, t, r, htransmit, hquit, hreceive, hquit', -⟩ :=
    exists_quit_programs (txQueueMp_isOk haddress hsize hend) sample.one_le_minChunkSize hfits htime
      hstart hruns hsees
  exact ⟨n, t, r, htransmit, hquit, hreceive, hquit',
    hi.getHashStr_transmit sample.maxChunkSize_lt hlt htransmit hquit,
    (hi.getHashStr_receive sample.maxChunkSize_lt hlt htime hreceive hquit').1⟩

/-- The shared memory of the programs, on the second page. -/
def configuredRing : RingQueue :=
  ringQueueMp (4096 + 64) (sizeofTxQueueStatus + kQueueSize) ⟨by decide, by decide⟩ ⟨14, by decide⟩

/-- `test_mp_prints` on the shared memory that the programs ask for. -/
theorem test_mp_prints_configured :
    ∃ x : Execution (transmisionWorldLts configuredRing.toBaseTxQueue
        (.ofHashes zeroSample.transmitBuffer 5 kMaxChunkSize .checksum .sha256
          (Vector.replicate 64 0) (Vector.replicate 64 7)) .everyLoad),
      ProgramsKeepRunning x ∧ ProgramsSeeStores x ∧ ∃ n r,
        (x.state n).state.receive = .job 5 r ∧ r.control = .quit ∧
        Everification.sha256.getHashStr r.job.hashStatus_ =
          some (Everification.sha256.text zeroSample.sampleData) := by
  have hstart := freshTransmision_initial configuredRing.toBaseTxQueue
    (.ofHashes zeroSample.transmitBuffer 5 kMaxChunkSize .checksum .sha256
      (Vector.replicate 64 0) (Vector.replicate 64 7)) .everyLoad
  have hfits : zeroSample.transmitBuffer.Completable configuredRing.capacity.toNat :=
    TransmitBuffer.completable_of_max zeroSample.minChunkSize_le (by decide)
  obtain ⟨x, hx, hruns, hsees⟩ := exists_programsKeepRunning (by decide)
    zeroSample.one_le_minChunkSize zeroSample.minChunkSize_le
    hfits (by decide) hstart
  obtain ⟨n, -, r, -, -, hreceive, hquit, -, htext⟩ :=
    test_mp_prints (4096 + 64) (sizeofTxQueueStatus + kQueueSize) ⟨by decide, by decide⟩
      ⟨14, by decide⟩ (by decide) (by decide) zeroSample 5 (by decide) .checksum .sha256
      (Vector.replicate 64 0) (Vector.replicate 64 7) x (hx ▸ hstart) hruns hsees
  exact ⟨x, hruns, hsees, n, r, hreceive, hquit, htext⟩

end TxQueue
