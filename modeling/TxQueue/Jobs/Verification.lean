import TxQueue.Jobs.Delivery

/-!
# The verification does not steer a job

No step of a job looks at its hash status, so a job takes the same steps under any other
verification. Two programs with verifications of their own can be followed by two jobs that share
the product of both.
-/

namespace TxQueue

variable {σ τ : Type*}

/-- The two hashes side by side. -/
def Verification.prod (verification : Verification σ) (verification' : Verification τ) :
    Verification (σ × τ) where
  init := (verification.init, verification'.init)
  update status data := (verification.update status.1 data, verification'.update status.2 data)

theorem Verification.foldl_prod (verification : Verification σ) (verification' : Verification τ)
    (chunks : List (List UInt8)) (status : σ × τ) :
    chunks.foldl (verification.prod verification').update status =
      (chunks.foldl verification.update status.1, chunks.foldl verification'.update status.2) := by
  induction chunks generalizing status with
  | nil => rfl
  | cons chunk chunks ih => exact ih _

/-- A map that takes the hash of one verification to the hash of another. -/
structure Verification.Morphism (verification : Verification σ) (verification' : Verification τ)
    (f : σ → τ) : Prop where
  init : f verification.init = verification'.init
  update : ∀ status data, f (verification.update status data) = verification'.update (f status) data

theorem Verification.morphism_fst (verification : Verification σ) (verification' : Verification τ) :
    (verification.prod verification').Morphism verification Prod.fst :=
  ⟨rfl, fun _ _ => rfl⟩

theorem Verification.morphism_snd (verification : Verification σ) (verification' : Verification τ) :
    (verification.prod verification').Morphism verification' Prod.snd :=
  ⟨rfl, fun _ _ => rfl⟩

/-- No hash at all. -/
def Verification.unit : Verification Unit where
  init := ()
  update _ _ := ()

theorem Verification.morphism_unit (verification : Verification σ) :
    verification.Morphism unit fun _ => () :=
  ⟨rfl, fun _ _ => rfl⟩

/-- The job with another hash status. -/
def UtestJob.map (f : σ → τ) (job : UtestJob σ) : UtestJob τ where
  totalData_ := job.totalData_
  transactionAttempts_ := job.transactionAttempts_
  hashStatus_ := f job.hashStatus_

def Transmitter.map (f : σ → τ) (t : Transmitter σ) : Transmitter τ := ⟨t.control, t.job.map f⟩

def Receiver.map (f : σ → τ) (r : Receiver σ) : Receiver τ := ⟨r.control, r.job.map f, r.buffer⟩

section Morphism

variable {source : TransmitBuffer} {verification : Verification σ} {verification' : Verification τ}
  {f : σ → τ} {a : Action}

theorem UtestJob.map_account (h : verification.Morphism verification' f) (job : UtestJob σ)
    (chunkSize : UInt64) (data : List UInt8) :
    (job.account verification chunkSize data).map f =
      (job.map f).account verification' chunkSize data := by
  simp only [UtestJob.map, UtestJob.account, h.update]

/-- The producer takes the same steps under another verification. -/
theorem TransmitStep.map {t t' : Transmitter σ} (h : verification.Morphism verification' f)
    (hjob : TransmitStep source verification t a t') :
    TransmitStep source verification' (t.map f) a (t'.map f) := by
  cases hjob with
  | openChunk hmore => exact .openChunk hmore
  | enter hmin hmax => exact .enter hmin hmax
  | skip => exact .skip
  | beginWrite hdata => exact .beginWrite hdata
  | copyIn hdata => exact .copyIn hdata
  | wrote hdata => exact .wrote (t := t.map f) hdata
  | refuseWrite hdata => exact .refuseWrite (t := t.map f) hdata
  | checked => exact .checked
  | failed => exact .failed
  | @account job chunkSize =>
      rw [Transmitter.map, Transmitter.map, UtestJob.map_account h]
      exact .account
  | close => exact .close
  | leave hdone => exact .leave hdone
  | openSignal => exact .openSignal
  | enterSignal => exact .enterSignal
  | skipSignal => exact .skipSignal
  | closeSignal => exact .closeSignal

/-- The consumer takes the same steps under another verification. -/
theorem ReceiveStep.map {r r' : Receiver σ} (h : verification.Morphism verification' f)
    (hjob : ReceiveStep verification r a r') :
    ReceiveStep verification' (r.map f) a (r'.map f) := by
  cases hjob with
  | openRead => exact .openRead
  | enter => exact .enter
  | skip => exact .skip
  | beginRead hsize => exact .beginRead hsize
  | copyOut hsize => exact .copyOut hsize
  | readSize hlen => exact .readSize hlen
  | refuseSize => exact .refuseSize
  | readData hlen => exact .readData hlen
  | refuseData => exact .refuseData
  | failed => exact .failed
  | finished => exact .finished
  | checked hne => exact .checked hne
  | @account job buffer chunkSize =>
      rw [Receiver.map, Receiver.map, UtestJob.map_account h]
      exact .account
  | close => exact .close
  | closeQuit => exact .closeQuit

end Morphism

end TxQueue
