import TxQueue.Jobs.Progress

/-!
# The passes as runs

A pass of the producer or of the consumer on one block is what the job's own steps on the queue
lead to, with the current index for each load. So where a pass commits, the transfer can go on: from
every reachable state between transactions it can be completed.
-/

namespace TxQueue

open Library

variable {σ : Type*} {queue : BaseTxQueue} {source : TransmitBuffer}
  {verification : Verification σ} {maxChunkSize : UInt64} {vis : Visibility}

/-- The bytes of a buffer that holds a list. -/
theorem bytes_getD {data : List UInt8} (hfits : FitsWord data) :
    bytes (data.getD · 0) (UInt64.ofNat data.length) = data := by
  have hlen : (UInt64.ofNat data.length).toNat = data.length := lengthWord_toNat hfits
  refine List.ext_getElem (by simp [hlen]) ?_
  intro i hleft hright
  simp [bytes, hright]

/-- The steps of the producer. -/
def TransferEvent.ofTransmit : TransferEvent → Prop
  | .transmit _ => True
  | .receive _ => False

/-! ## The producer -/

section Producer

variable {s s' : System} {t t' : Transmitter σ} {r : Receiver σ} {log : TransferLog} {a : Action}

/-- The steps inside a call of `imp_write` leave the job and the log alone. -/
theorem leads_writing {w : TransferWorld σ} {data : List UInt8}
    (h : (transferWorldLts queue source verification maxChunkSize vis).Leads
      TransferEvent.ofTransmit w ⟨⟨s, t, r⟩, log⟩) (hwrites : t.writes source = some data)
    (hsteps : (txQueueLts queue vis).Leads (fun e => e = .beginWrite data ∨ e = .copyIn) s s') :
    (transferWorldLts queue source verification maxChunkSize vis).Leads TransferEvent.ofTransmit
      w ⟨⟨s', t, r⟩, log⟩ := by
  refine h.trans (hsteps.map (fun s : System => (⟨⟨s, t, r⟩, log⟩ : TransferWorld σ)) ?_)
  intro s e s' he hstep
  rcases he with rfl | rfl
  · exact ⟨_, ⟨.transmit (.beginWrite hwrites) hstep, rfl⟩, trivial⟩
  · exact ⟨_, ⟨.transmit (.copyIn hwrites) hstep, rfl⟩, trivial⟩

/-- The log after a call of `imp_write` has returned `ok`. -/
def TransferLog.wrote (log : TransferLog) (ok : Bool) (data : List UInt8) : TransferLog :=
  log.record (.transmit (.call (if ok then .wrote data else .refuseWrite data)))

@[simp] theorem TransferLog.wrote_written (log : TransferLog) (ok : Bool) (data : List UInt8) :
    (log.wrote ok data).history.written = log.history.written := by
  cases ok <;> rfl

@[simp] theorem TransferLog.wrote_writing (log : TransferLog) (ok : Bool) (data : List UInt8) :
    (log.wrote ok data).history.writing = log.history.writing ++ if ok then data else [] := by
  cases ok <;> simp [TransferLog.wrote, TransferLog.record, History.record]

/-- A call of `imp_write` of the job is `impWrite` on the block. -/
theorem leads_write {w : TransferWorld σ} {tx : TxWrite} {data : List UInt8}
    (h : (transferWorldLts queue source verification maxChunkSize vis).Leads
      TransferEvent.ofTransmit w ⟨⟨s, t, r⟩, log⟩) (hwrites : t.writes source = some data)
    (hfits : FitsWord data) (hside : s.producer = .live tx) (hcurrent : UpToDate s.up)
    (core : Int32) :
    let result := tx.impWrite s.block core (data.getD · 0) (UInt64.ofNat data.length)
    ∃ s', (transferWorldLts queue source verification maxChunkSize vis).Leads
        TransferEvent.ofTransmit w
        ⟨⟨s', { t with control := t.control.afterWrite result.ok }, r⟩, log.wrote result.ok data⟩ ∧
      s'.producer = .live result.tx ∧ s'.block = result.block ∧ UpToDate s'.up ∧
      s'.consumer = s.consumer := by
  intro result
  obtain ⟨s₁, s', hsteps, hlast, hproducer, hblock, hup, hconsumer⟩ :=
    System.write_steps queue vis hside hcurrent core (data.getD · 0) (UInt64.ofNat data.length)
  rw [bytes_getD hfits] at hsteps hlast
  have hbefore := leads_writing h hwrites hsteps
  refine ⟨s', ?_, hproducer, hblock, hup, hconsumer⟩
  change Step vis s₁ (if result.ok then _ else _) s' at hlast
  cases hok : result.ok with
  | true =>
      rw [hok] at hlast
      exact hbefore.andThen (.transmit (.wrote hwrites) hlast) trivial
  | false =>
      rw [hok] at hlast
      exact hbefore.andThen (.transmit (.refuseWrite hwrites) hlast) trivial

/-- What a pass of the producer with these calls leaves: the block of `attemptWrite`, the calls'
bytes as one more committed transaction if it commits, and everything of the consumer alone. -/
structure TransmitPass (queue : BaseTxQueue) (core : Int32) (calls : List (List UInt8))
    (w w' : TransferWorld σ) : Prop where
  block : w'.state.system.block = (attemptWrite queue core calls w.state.system.block).2
  producer : w'.state.system.producer = .idle queue
  consumer : w'.state.system.consumer = w.state.system.consumer
  receive : w'.state.receive = w.state.receive
  written : w'.log.history.written = w.log.history.written ++
    if (attemptWrite queue core calls w.state.system.block).1 then [calls.flatten] else []
  writing : w'.log.history.writing = []

variable (verification maxChunkSize vis r log) in
/-- A pass with a chunk up to the test of the transaction: the calls of `imp_write` for the size and
for the data, on the block. -/
theorem leads_chunkCalls {job : UtestJob σ} {draw : UInt64} (hok : queue.isOk)
    (hside : s.producer = .idle queue) (hmore : job.totalData_ < source.srcDataSize_)
    (hmin : source.minChunkSize_ ≤ draw) (hmax : draw ≤ source.maxChunkSize_) (core : Int32) :
    let chunkSize := source.chunkSize job.totalData_ draw
    let chunk := source.chunk job.totalData_ chunkSize
    let first := (TxWrite.construct queue s.block.status.tail_ s.block.status.head_).impWrite
      s.block core ((le64 chunkSize).getD · 0) (UInt64.ofNat (le64 chunkSize).length)
    let second := first.tx.impWrite first.block core (chunk.getD · 0) (UInt64.ofNat chunk.length)
    ∃ s', (transferWorldLts queue source verification maxChunkSize vis).Leads
        TransferEvent.ofTransmit ⟨⟨s, ⟨.loop, job⟩, r⟩, log⟩
        ⟨⟨s', ⟨.check chunkSize, job⟩, r⟩,
          (log.wrote first.ok (le64 chunkSize)).wrote second.ok chunk⟩ ∧
      s'.producer = .live second.tx ∧ s'.block = second.block ∧ s'.consumer = s.consumer := by
  intro chunkSize chunk first second
  have hchunk : FitsWord chunk := (List.length_take_le _ _).trans_lt chunkSize.toNat_lt
  obtain ⟨s₁, hopen, hproducer₁, hblock₁, hup₁, hconsumer₁⟩ := System.openWrite_steps vis hside
  have h₀ := Lts.Leads.refl (transferWorldLts queue source verification maxChunkSize vis)
    TransferEvent.ofTransmit ⟨⟨s, ⟨.loop, job⟩, r⟩, log⟩
  have h₁ := h₀.andThen (.transmit (.openChunk hmore) hopen) trivial
  have h₂ := h₁.andThen (.transmit (.enter hmin hmax)
    ⟨⟨_, hproducer₁, by simp [TxWrite.construct, TxWrite.toBool, hok]⟩, rfl⟩) trivial
  obtain ⟨s₃, h₃, hproducer₃, hblock₃, hup₃, hconsumer₃⟩ :=
    leads_write h₂ rfl (fitsWord_le64 chunkSize) hproducer₁ hup₁ core
  rw [hblock₁] at h₃ hproducer₃ hblock₃
  obtain ⟨s₄, h₄, hproducer₄, hblock₄, -, hconsumer₄⟩ :=
    leads_write h₃ rfl hchunk hproducer₃ hup₃ core
  rw [hblock₃] at h₄ hproducer₄ hblock₄
  refine ⟨s₄, h₄, hproducer₄, hblock₄, ?_⟩
  rw [hconsumer₄, hconsumer₃, hconsumer₁]

variable (verification maxChunkSize vis r log) in
/-- A pass with a chunk. -/
theorem leads_chunkPass {job : UtestJob σ} {draw : UInt64} (hok : queue.isOk)
    (hside : s.producer = .idle queue) (hwriting : log.history.writing = [])
    (hmore : job.totalData_ < source.srcDataSize_) (hmin : source.minChunkSize_ ≤ draw)
    (hmax : draw ≤ source.maxChunkSize_) (core : Int32) :
    let chunkSize := source.chunkSize job.totalData_ draw
    let calls := [le64 chunkSize, source.chunk job.totalData_ chunkSize]
    ∃ w', (transferWorldLts queue source verification maxChunkSize vis).Leads
        TransferEvent.ofTransmit ⟨⟨s, ⟨.loop, job⟩, r⟩, log⟩ w' ∧
      TransmitPass queue core calls ⟨⟨s, ⟨.loop, job⟩, r⟩, log⟩ w' ∧
      w'.state.transmit.control = .loop ∧
      ((attemptWrite queue core calls s.block).1 = true →
        w'.state.transmit.job.totalData_ = job.totalData_ + chunkSize) := by
  intro chunkSize calls
  obtain ⟨s₁, h₁, hproducer₁, hblock₁, hconsumer₁⟩ :=
    leads_chunkCalls verification maxChunkSize vis r log hok hside hmore hmin hmax core
  obtain ⟨s₂, hclose, hproducer₂, hblock₂, hconsumer₂⟩ := System.closeWrite_steps vis hproducer₁
  rw [hblock₁] at hblock₂
  have hconsumer : s₂.consumer = s.consumer := hconsumer₂.trans hconsumer₁
  have hqueue : s₂.producer = .idle queue := by
    rw [hproducer₂, TxWrite.impWrite_queue, TxWrite.impWrite_queue]
    rfl
  -- the two calls, as `attemptWrite` makes them
  let first := (TxWrite.construct queue s.block.status.tail_ s.block.status.head_).impWrite s.block
    core ((le64 chunkSize).getD · 0) (UInt64.ofNat (le64 chunkSize).length)
  let second := first.tx.impWrite first.block core
    ((source.chunk job.totalData_ chunkSize).getD · 0)
    (UInt64.ofNat (source.chunk job.totalData_ chunkSize).length)
  have hattempt : attemptWrite queue core calls s.block =
      (second.tx.toBool, second.tx.destroy second.block) := rfl
  change Step vis s₁ (.closeWrite second.tx.toBool) s₂ at hclose
  cases hvalid : second.tx.toBool with
  | true =>
      have hsecond : second.ok = true := (TxWrite.impWrite_ok _ _ _ _ _).trans hvalid
      have hfirst : first.ok = true := TxWrite.impWrite_ok_of_later hsecond
      rw [hvalid] at hclose hattempt
      have h₂ := h₁.andThen (.transmit .checked ⟨⟨_, hproducer₁, hvalid⟩, rfl⟩) trivial
      have h₃ := h₂.andThen (.transmit .account rfl) trivial
      have h₄ := h₃.andThen (.transmit .close hclose) trivial
      refine ⟨_, h₄, ⟨?_, hqueue, hconsumer, rfl, ?_, rfl⟩, rfl, fun _ => rfl⟩
      · exact hblock₂.trans (congrArg Prod.snd hattempt).symm
      · show (((log.wrote first.ok (le64 chunkSize)).wrote second.ok
          (source.chunk job.totalData_ chunkSize)).history.record (.closeWrite true)).written = _
        rw [hfirst, hsecond, hattempt]
        simp [History.record, hwriting, calls]
  | false =>
      rw [hvalid] at hclose hattempt
      have h₂ := h₁.andThen (.transmit .failed ⟨⟨_, hproducer₁, hvalid⟩, rfl⟩) trivial
      have h₃ := h₂.andThen (.transmit .close hclose) trivial
      refine ⟨_, h₃, ⟨?_, hqueue, hconsumer, rfl, ?_, rfl⟩, rfl, ?_⟩
      · exact hblock₂.trans (congrArg Prod.snd hattempt).symm
      · show (((log.wrote first.ok (le64 chunkSize)).wrote second.ok
          (source.chunk job.totalData_ chunkSize)).history.record (.closeWrite false)).written = _
        rw [hattempt]
        simp [History.record]
      · rw [hattempt]
        simp

variable (source verification maxChunkSize vis r log) in
/-- A pass with the empty chunk. -/
theorem leads_signalPass (job : UtestJob σ) (hok : queue.isOk) (hside : s.producer = .idle queue)
    (hwriting : log.history.writing = []) (core : Int32) :
    ∃ w', (transferWorldLts queue source verification maxChunkSize vis).Leads
        TransferEvent.ofTransmit ⟨⟨s, ⟨.signal, job⟩, r⟩, log⟩ w' ∧
      TransmitPass queue core [le64 0] ⟨⟨s, ⟨.signal, job⟩, r⟩, log⟩ w' ∧
      w'.state.transmit.control =
        if (attemptWrite queue core [le64 0] s.block).1 then .quit else .signal := by
  obtain ⟨s₁, hopen, hproducer₁, hblock₁, hup₁, hconsumer₁⟩ := System.openWrite_steps vis hside
  have h₀ := Lts.Leads.refl (transferWorldLts queue source verification maxChunkSize vis)
    TransferEvent.ofTransmit ⟨⟨s, ⟨.signal, job⟩, r⟩, log⟩
  have h₁ := h₀.andThen (.transmit .openSignal hopen) trivial
  have h₂ := h₁.andThen (.transmit .enterSignal
    ⟨⟨_, hproducer₁, by simp [TxWrite.construct, TxWrite.toBool, hok]⟩, rfl⟩) trivial
  obtain ⟨s₃, h₃, hproducer₃, hblock₃, hup₃, hconsumer₃⟩ :=
    leads_write h₂ rfl (fitsWord_le64 0) hproducer₁ hup₁ core
  obtain ⟨s₄, hclose, hproducer₄, hblock₄, hconsumer₄⟩ := System.closeWrite_steps vis hproducer₃
  rw [hblock₁] at h₃ hblock₃ hclose hproducer₄ hblock₄
  rw [hblock₃] at hblock₄
  have hconsumer : s₄.consumer = s.consumer := by rw [hconsumer₄, hconsumer₃, hconsumer₁]
  have hqueue : s₄.producer = .idle queue := by
    rw [hproducer₄, TxWrite.impWrite_queue]
    rfl
  let call := (TxWrite.construct queue s.block.status.tail_ s.block.status.head_).impWrite s.block
    core ((le64 0).getD · 0) (UInt64.ofNat (le64 0).length)
  have hattempt : attemptWrite queue core [le64 0] s.block =
      (call.tx.toBool, call.tx.destroy call.block) := rfl
  change Step vis s₃ (.closeWrite call.tx.toBool) s₄ at hclose
  have hcall : call.ok = call.tx.toBool := TxWrite.impWrite_ok _ _ _ _ _
  have h₄ := h₃.andThen (.transmit .closeSignal hclose) trivial
  refine ⟨_, h₄, ⟨?_, hqueue, hconsumer, rfl, ?_, rfl⟩, ?_⟩
  · exact hblock₄.trans (congrArg Prod.snd hattempt).symm
  · show ((log.wrote call.ok (le64 0)).history.record (.closeWrite call.tx.toBool)).written = _
    rw [hattempt, hcall]
    cases call.tx.toBool <;> simp [History.record, hwriting]
  · show (if call.ok then TransmitControl.quit else .signal) = _
    rw [hattempt, hcall]

/-- How far the producer is from being done. -/
def Transmitter.remaining (source : TransmitBuffer) (t : Transmitter σ) : ℕ :=
  match t.control with
  | .loop => source.srcData_.length - t.job.totalData_.toNat + 2
  | .signal => 1
  | _ => 0

variable (verification maxChunkSize vis) in
/-- A pass of the producer is `attemptWrite` on the block, and leads on if it commits. -/
theorem leads_transmitPass {w : TransferWorld σ} {calls : List (List UInt8)} (hok : queue.isOk)
    (hside : w.state.system.producer = .idle queue) (hwriting : w.log.history.writing = [])
    (hmin : 1 ≤ source.minChunkSize_) (hcalls : w.state.transmit.NextCalls source calls)
    (core : Int32) :
    ∃ w', (transferWorldLts queue source verification maxChunkSize vis).Leads
        TransferEvent.ofTransmit w w' ∧
      TransmitPass queue core calls w w' ∧ w'.state.transmit.control.IsBetween ∧
      ((attemptWrite queue core calls w.state.system.block).1 = true →
        w'.state.transmit.remaining source < w.state.transmit.remaining source) := by
  obtain ⟨⟨s, ⟨control, job⟩, r⟩, log⟩ := w
  cases control with
  | loop =>
      simp only [Transmitter.NextCalls] at hcalls
      split_ifs at hcalls with hmore
      · obtain ⟨draw, hdraw, hmax, rfl⟩ := hcalls
        obtain ⟨w', hleads, hpass, hcontrol, htotal⟩ :=
          leads_chunkPass verification maxChunkSize vis r log hok hside hwriting hmore hdraw hmax
            core
        have hchunk := source.isChunk hmin hdraw hmax hmore
        refine ⟨w', hleads, hpass, by rw [hcontrol]; trivial, ?_⟩
        intro hcommits
        have hpos := hchunk.pos
        have hfits := hchunk.fits
        have hlt := source.fitsWord
        unfold FitsWord at hlt
        simp only [Transmitter.remaining, hcontrol, htotal hcommits, UInt64.toNat_add]
        omega
      · subst hcalls
        obtain ⟨w', hleads, hpass, hcontrol⟩ :=
          leads_signalPass source verification maxChunkSize vis r log job hok hside hwriting core
        have hleave : (transferWorldLts queue source verification maxChunkSize vis).Leads
            TransferEvent.ofTransmit ⟨⟨s, ⟨.loop, job⟩, r⟩, log⟩ ⟨⟨s, ⟨.signal, job⟩, r⟩, log⟩ :=
          .single ⟨.transmit (.leave (UInt64.not_lt.1 hmore)) rfl, rfl⟩ trivial
        refine ⟨w', hleave.trans hleads,
          ⟨hpass.block, hpass.producer, hpass.consumer, hpass.receive, hpass.written,
            hpass.writing⟩, ?_, ?_⟩
        · rw [hcontrol]
          split <;> trivial
        · intro hcommits
          simp [Transmitter.remaining, hcontrol, hcommits]
  | signal =>
      obtain rfl : calls = [le64 0] := hcalls
      obtain ⟨w', hleads, hpass, hcontrol⟩ :=
        leads_signalPass source verification maxChunkSize vis r log job hok hside hwriting core
      refine ⟨w', hleads, hpass, ?_, ?_⟩
      · rw [hcontrol]
        split <;> trivial
      · intro hcommits
        simp [Transmitter.remaining, hcontrol, hcommits]
  | _ => exact hcalls.elim

end Producer

/-! ## The consumer -/

section Consumer

variable {s s' : System} {t : Transmitter σ} {r : Receiver σ} {log : TransferLog}
  {w : TransferWorld σ} {job : UtestJob σ} {buffer : List UInt8}

/-- The steps of the consumer. -/
def TransferEvent.ofReceive : TransferEvent → Prop
  | .transmit _ => False
  | .receive _ => True

/-- The steps inside a call of `imp_read` leave the job and the log alone. -/
theorem leads_reading {size : UInt64}
    (h : (transferWorldLts queue source verification maxChunkSize vis).Leads
      TransferEvent.ofReceive w ⟨⟨s, t, r⟩, log⟩) (hreads : r.control.reads = some size)
    (hsteps : (txQueueLts queue vis).Leads (fun e => e = .beginRead size ∨ e = .copyOut) s s') :
    (transferWorldLts queue source verification maxChunkSize vis).Leads TransferEvent.ofReceive
      w ⟨⟨s', t, r⟩, log⟩ := by
  refine h.trans (hsteps.map (fun s : System => (⟨⟨s, t, r⟩, log⟩ : TransferWorld σ)) ?_)
  intro s e s' he hstep
  rcases he with rfl | rfl
  · exact ⟨_, ⟨.receive (.beginRead hreads) hstep, rfl⟩, trivial⟩
  · exact ⟨_, ⟨.receive (.copyOut hreads) hstep, rfl⟩, trivial⟩

/-- The log after a call of `imp_read` has returned `ok`. -/
def TransferLog.read (log : TransferLog) (ok : Bool) (data : List UInt8) (size : UInt64) :
    TransferLog :=
  log.record (.receive (.call (if ok then .read data else .refuseRead size)))

@[simp] theorem TransferLog.read_consumed (log : TransferLog) (ok : Bool) (data : List UInt8)
    (size : UInt64) : (log.read ok data size).history.consumed = log.history.consumed := by
  cases ok <;> rfl

@[simp] theorem TransferLog.read_written (log : TransferLog) (ok : Bool) (data : List UInt8)
    (size : UInt64) : (log.read ok data size).history.written = log.history.written := by
  cases ok <;> rfl

@[simp] theorem TransferLog.read_reading (log : TransferLog) (ok : Bool) (data : List UInt8)
    (size : UInt64) : (log.read ok data size).history.reading =
      log.history.reading ++ if ok then data else [] := by
  cases ok <;> simp [TransferLog.read, TransferLog.record, History.record]

/-- The first read of the job is `impRead` on the block. -/
theorem leads_readSize {tx : TxRead}
    (h : (transferWorldLts queue source verification maxChunkSize vis).Leads
      TransferEvent.ofReceive w ⟨⟨s, t, ⟨.readSize, job, buffer⟩⟩, log⟩)
    (hside : s.consumer = .live tx) (hcurrent : UpToDate s.down) (core : Int32) :
    let result := tx.impRead s.block core (fun _ => 0) 8
    let chunkSize := if result.ok then ofLe64 (bytes result.buffer 8) else 0
    ∃ s', (transferWorldLts queue source verification maxChunkSize vis).Leads
        TransferEvent.ofReceive w ⟨⟨s', t, ⟨.readData chunkSize, job, buffer⟩⟩,
          log.read result.ok (bytes result.buffer 8) 8⟩ ∧
      s'.consumer = .live result.tx ∧ s'.block = result.block ∧ UpToDate s'.down ∧
      s'.producer = s.producer := by
  intro result chunkSize
  obtain ⟨s₁, s', hsteps, hlast, hconsumer, hblock, hdown, hproducer⟩ :=
    System.read_steps queue vis hside hcurrent core (fun _ => 0) 8
  have hbefore := leads_reading h rfl hsteps
  refine ⟨s', ?_, hconsumer, hblock, hdown, hproducer⟩
  change Step vis s₁ (if result.ok then .read (bytes result.buffer 8) else _) s' at hlast
  cases hok : result.ok with
  | true =>
      rw [hok] at hlast
      simp only [chunkSize, hok, if_true]
      exact hbefore.andThen (.receive (.readSize (length_bytes _ _)) hlast) trivial
  | false =>
      rw [hok] at hlast
      simp only [chunkSize, hok]
      exact hbefore.andThen (.receive .refuseSize hlast) trivial

/-- The second read of the job is `impRead` on the block. -/
theorem leads_readData {tx : TxRead} {chunkSize : UInt64}
    (h : (transferWorldLts queue source verification maxChunkSize vis).Leads
      TransferEvent.ofReceive w ⟨⟨s, t, ⟨.readData chunkSize, job, buffer⟩⟩, log⟩)
    (hside : s.consumer = .live tx) (hcurrent : UpToDate s.down) (core : Int32) :
    let result := tx.impRead s.block core (buffer.getD · 0) chunkSize
    ∃ s' buffer', (transferWorldLts queue source verification maxChunkSize vis).Leads
        TransferEvent.ofReceive w ⟨⟨s', t, ⟨.check chunkSize, job, buffer'⟩⟩,
          log.read result.ok (bytes result.buffer chunkSize) chunkSize⟩ ∧
      s'.consumer = .live result.tx ∧ s'.block = result.block ∧ s'.producer = s.producer := by
  intro result
  obtain ⟨s₁, s', hsteps, hlast, hconsumer, hblock, -, hproducer⟩ :=
    System.read_steps queue vis hside hcurrent core (buffer.getD · 0) chunkSize
  have hbefore := leads_reading h rfl hsteps
  change Step vis s₁ (if result.ok then .read (bytes result.buffer chunkSize) else _) s' at hlast
  cases hok : result.ok with
  | true =>
      rw [hok] at hlast
      exact ⟨s', _, hbefore.andThen (.receive (.readData (length_bytes _ _)) hlast) trivial,
        hconsumer, hblock, hproducer⟩
  | false =>
      rw [hok] at hlast
      exact ⟨s', _, hbefore.andThen (.receive .refuseData hlast) trivial, hconsumer, hblock,
        hproducer⟩

variable (source verification maxChunkSize vis t log) in
/-- A pass of the consumer up to the test of the transaction: the calls of `imp_read` for the size
and for the data, on the block. -/
theorem leads_receiveCalls (hok : queue.isOk) (hside : s.consumer = .idle queue) (core : Int32) :
    let first := (TxRead.construct queue s.block.status.head_ s.block.status.tail_).impRead s.block
      core (fun _ => 0) 8
    let chunkSize := if first.ok then ofLe64 (bytes first.buffer 8) else 0
    let second := first.tx.impRead first.block core (buffer.getD · 0) chunkSize
    ∃ s' buffer', (transferWorldLts queue source verification maxChunkSize vis).Leads
        TransferEvent.ofReceive ⟨⟨s, t, ⟨.loop, job, buffer⟩⟩, log⟩
        ⟨⟨s', t, ⟨.check chunkSize, job, buffer'⟩⟩,
          (log.read first.ok (bytes first.buffer 8) 8).read second.ok
            (bytes second.buffer chunkSize) chunkSize⟩ ∧
      s'.consumer = .live second.tx ∧ s'.block = second.block ∧ s'.producer = s.producer := by
  intro first chunkSize second
  obtain ⟨s₁, hopen, hconsumer₁, hblock₁, hdown₁, hproducer₁⟩ := System.openRead_steps vis hside
  have h₀ := Lts.Leads.refl (transferWorldLts queue source verification maxChunkSize vis)
    TransferEvent.ofReceive ⟨⟨s, t, ⟨.loop, job, buffer⟩⟩, log⟩
  have h₁ := h₀.andThen (.receive .openRead hopen) trivial
  have h₂ := h₁.andThen (.receive .enter
    ⟨⟨_, hconsumer₁, by simp [TxRead.construct, TxRead.toBool, hok]⟩, rfl⟩) trivial
  obtain ⟨s₃, h₃, hconsumer₃, hblock₃, hdown₃, hproducer₃⟩ :=
    leads_readSize h₂ hconsumer₁ hdown₁ core
  rw [hblock₁] at h₃ hconsumer₃ hblock₃
  obtain ⟨s₄, buffer', h₄, hconsumer₄, hblock₄, hproducer₄⟩ :=
    leads_readData h₃ hconsumer₃ hdown₃ core
  rw [hblock₃] at h₄ hconsumer₄ hblock₄
  refine ⟨s₄, buffer', h₄, hconsumer₄, hblock₄, ?_⟩
  rw [hproducer₄, hproducer₃, hproducer₁]

/-- What a pass of the consumer leaves: the block of `attemptRead`, the frame of the chunk as one
more committed transaction if it commits, and everything of the producer alone. The consumer is
done exactly if the chunk was empty. -/
structure ReceivePass (queue : BaseTxQueue) (core : Int32) (buffer : ℕ → UInt8)
    (w w' : TransferWorld σ) : Prop where
  block : w'.state.system.block = (attemptRead queue core buffer w.state.system.block).2
  consumer : w'.state.system.consumer = .idle queue
  producer : w'.state.system.producer = w.state.system.producer
  transmit : w'.state.transmit = w.state.transmit
  written : w'.log.history.written = w.log.history.written
  consumed : w'.log.history.consumed = w.log.history.consumed ++
    ((attemptRead queue core buffer w.state.system.block).1.map frame).toList
  reading : w'.log.history.reading = []
  control : w'.state.receive.control =
    if (attemptRead queue core buffer w.state.system.block).1 = some [] then .quit else .loop

variable (source verification maxChunkSize vis) in
/-- A pass of the consumer is `attemptRead` on the block. -/
theorem leads_receivePass (hok : queue.isOk) (hside : w.state.system.consumer = .idle queue)
    (hreading : w.log.history.reading = []) (hloop : w.state.receive.control = .loop)
    (core : Int32) :
    ∃ w', (transferWorldLts queue source verification maxChunkSize vis).Leads
        TransferEvent.ofReceive w w' ∧
      ReceivePass queue core (w.state.receive.buffer.getD · 0) w w' := by
  obtain ⟨⟨s, t, ⟨control, job, buffer⟩⟩, log⟩ := w
  obtain rfl : control = .loop := hloop
  change s.consumer = .idle queue at hside
  change log.history.reading = [] at hreading
  obtain ⟨s₁, buffer', h₁, hconsumer₁, hblock₁, hproducer₁⟩ :=
    leads_receiveCalls source verification maxChunkSize vis t log hok hside core
  obtain ⟨s₂, hclose, hconsumer₂, hblock₂, hproducer₂⟩ := System.closeRead_steps vis hconsumer₁
  rw [hblock₁] at hblock₂
  have hproducer : s₂.producer = s.producer := hproducer₂.trans hproducer₁
  have hqueue : s₂.consumer = .idle queue := by
    rw [hconsumer₂, TxRead.impRead_queue, TxRead.impRead_queue]
    rfl
  -- the two calls, as `attemptRead` makes them
  let first := (TxRead.construct queue s.block.status.head_ s.block.status.tail_).impRead s.block
    core (fun _ => 0) 8
  let chunkSize := if first.ok then ofLe64 (bytes first.buffer 8) else 0
  let second := first.tx.impRead first.block core (buffer.getD · 0) chunkSize
  have hattempt : attemptRead queue core (buffer.getD · 0) s.block =
      (if second.tx.toBool then some (bytes second.buffer chunkSize) else none,
        second.tx.destroy second.block) := rfl
  change Step vis s₁ (.closeRead second.tx.toBool) s₂ at hclose
  have hwritten (published : Bool) : (((log.read first.ok (bytes first.buffer 8) 8).read second.ok
      (bytes second.buffer chunkSize) chunkSize).history.record (.closeRead published)).written =
      log.history.written := by
    simp [History.record]
  cases hvalid : second.tx.toBool with
  | true =>
      have hsecond : second.ok = true := (TxRead.impRead_ok _ _ _ _ _).trans hvalid
      have hfirst : first.ok = true := TxRead.impRead_ok_of_later hsecond
      rw [hvalid] at hclose hattempt
      have hframe : bytes first.buffer 8 ++ bytes second.buffer chunkSize =
          frame (bytes second.buffer chunkSize) := by
        rw [frame_eq (length_bytes _ _)]
        simp only [chunkSize, hfirst, if_true]
        rw [le64_ofLe64 (length_bytes _ _)]
      have hconsumed : (((log.read first.ok (bytes first.buffer 8) 8).read second.ok
          (bytes second.buffer chunkSize) chunkSize).history.record (.closeRead true)).consumed =
          log.history.consumed ++
            ((attemptRead queue core (buffer.getD · 0) s.block).1.map frame).toList := by
        rw [hfirst, hsecond, hattempt]
        simp [History.record, hreading, hframe]
      by_cases hzero : chunkSize = 0
      · have hjob : ReceiveStep verification ⟨.check chunkSize, job, buffer'⟩ (.test true)
            ⟨.closeQuit, job, buffer'⟩ := by
          rw [hzero]
          exact .finished
        have h₂ := h₁.andThen (.receive hjob ⟨⟨_, hconsumer₁, hvalid⟩, rfl⟩) trivial
        have h₃ := h₂.andThen (.receive .closeQuit hclose) trivial
        refine ⟨_, h₃, ⟨?_, hqueue, hproducer, rfl, hwritten true, hconsumed, rfl, ?_⟩⟩
        · exact hblock₂.trans (congrArg Prod.snd hattempt).symm
        · rw [hattempt]
          simp [bytes_eq_nil_iff.2 hzero]
      · have h₂ := h₁.andThen (.receive (.checked hzero) ⟨⟨_, hconsumer₁, hvalid⟩, rfl⟩) trivial
        have h₃ := h₂.andThen (.receive .account rfl) trivial
        have h₄ := h₃.andThen (.receive .close hclose) trivial
        refine ⟨_, h₄, ⟨?_, hqueue, hproducer, rfl, hwritten true, hconsumed, rfl, ?_⟩⟩
        · exact hblock₂.trans (congrArg Prod.snd hattempt).symm
        · rw [hattempt]
          simp [bytes_eq_nil_iff, hzero]
  | false =>
      rw [hvalid] at hclose hattempt
      have h₂ := h₁.andThen (.receive .failed ⟨⟨_, hconsumer₁, hvalid⟩, rfl⟩) trivial
      have h₃ := h₂.andThen (.receive .close hclose) trivial
      refine ⟨_, h₃, ⟨?_, hqueue, hproducer, rfl, hwritten false, ?_, rfl, ?_⟩⟩
      · exact hblock₂.trans (congrArg Prod.snd hattempt).symm
      · show (((log.read first.ok (bytes first.buffer 8) 8).read second.ok
          (bytes second.buffer chunkSize) chunkSize).history.record (.closeRead false)).consumed = _
        rw [hattempt]
        simp [History.record]
      · rw [hattempt]
        rfl

end Consumer

end TxQueue
