import TxQueue.Jobs.Interactive
import TxQueue.Jobs.Passes

/-!
# Every press of the key is reported

A pass of the interactive transmitter, with the current head for each load, is `attemptWrite` on the
block. On a queue that is ok it ends with the line "Just sent", whether the message is committed or
not.
-/

namespace TxQueue

open Library

/-- Once the transaction is invalid, no call does anything. -/
theorem writeCalls_of_invalid {tx : TxWrite} (hinvalid : tx.invalidated_ = true) (core : Int32)
    (calls : List (List UInt8)) (block : Block) : writeCalls core calls tx block = (tx, block) := by
  induction calls with
  | nil => rfl
  | cons data calls ih =>
      simp only [writeCalls, TxWrite.impWrite_of_invalid hinvalid]
      exact ih

/-- The calls of a transaction stay on its queue. -/
theorem writeCalls_queue (core : Int32) (calls : List (List UInt8)) (tx : TxWrite) (block : Block) :
    (writeCalls core calls tx block).1.queue_ = tx.queue_ := by
  induction calls generalizing tx block with
  | nil => rfl
  | cons data calls ih =>
      simp only [writeCalls]
      rw [ih, TxWrite.impWrite_queue]

section Sender

variable {μ : Type*} {parts : μ → List (List UInt8)} {queue : BaseTxQueue} {w : World}
  {vis : Visibility} {s s' : System} {v : SenderWorld μ} {h : History} {message : μ}
  {part : List UInt8} {rest : List (List UInt8)} {tx : TxWrite}

/-- The steps of the sender. -/
def SenderEvent.ofSender : SenderEvent μ → Prop
  | .send _ => True
  | .consumer _ => False

/-- The steps inside a call of `imp_write` leave the sender and the history alone. -/
theorem leads_writingPart
    (hleads : (senderLts parts w vis).Leads SenderEvent.ofSender v
      ⟨⟨s, .writing message (part :: rest)⟩, h⟩)
    (hsteps : (txQueueLts queue vis).Leads (fun e => e = .beginWrite part ∨ e = .copyIn) s s') :
    (senderLts parts w vis).Leads SenderEvent.ofSender v
      ⟨⟨s', .writing message (part :: rest)⟩, h⟩ := by
  refine hleads.trans
    (hsteps.map (fun s => (⟨⟨s, .writing message (part :: rest)⟩, h⟩ : SenderWorld μ)) ?_)
  intro s e s' he hstep
  rcases he with rfl | rfl
  · exact ⟨_, ⟨.send .beginWrite hstep, rfl⟩, trivial⟩
  · exact ⟨_, ⟨.send .copyIn hstep, rfl⟩, trivial⟩

/-- A call of `imp_write` for one argument is `impWrite` on the block, and the last call if it
fails. -/
theorem leads_writePart
    (hleads : (senderLts parts w vis).Leads SenderEvent.ofSender v
      ⟨⟨s, .writing message (part :: rest)⟩, h⟩) (hfits : FitsWord part)
    (hside : s.producer = .live tx) (hcurrent : UpToDate s.up) (core : Int32) :
    let result := tx.impWrite s.block core (part.getD · 0) (UInt64.ofNat part.length)
    ∃ s', (senderLts parts w vis).Leads SenderEvent.ofSender v
        ⟨⟨s', .writing message (if result.ok then rest else [])⟩,
          h.record (if result.ok then .wrote part else .refuseWrite part)⟩ ∧
      s'.producer = .live result.tx ∧ s'.block = result.block ∧ UpToDate s'.up ∧
      s'.consumer = s.consumer := by
  intro result
  obtain ⟨s₁, s', hsteps, hlast, hproducer, hblock, hup, hconsumer⟩ :=
    System.write_steps tx.queue_ vis hside hcurrent core (part.getD · 0)
      (UInt64.ofNat part.length)
  rw [bytes_getD hfits] at hsteps hlast
  have hbefore := leads_writingPart hleads hsteps
  refine ⟨s', ?_, hproducer, hblock, hup, hconsumer⟩
  change Step vis s₁ (if result.ok then _ else _) s' at hlast
  cases hok : result.ok with
  | true =>
      rw [hok] at hlast
      exact hbefore.andThen (.send .wrote hlast) trivial
  | false =>
      rw [hok] at hlast
      exact hbefore.andThen (.send .refuseWrite hlast) trivial

/-- The calls of `imp_write` for the arguments one after the other. -/
theorem leads_writeParts
    (hleads : (senderLts parts w vis).Leads SenderEvent.ofSender v ⟨⟨s, .writing message rest⟩, h⟩)
    (hfits : ∀ part ∈ rest, FitsWord part) (hside : s.producer = .live tx)
    (hcurrent : UpToDate s.up) (core : Int32) :
    ∃ s' h', (senderLts parts w vis).Leads SenderEvent.ofSender v ⟨⟨s', .writing message []⟩, h'⟩ ∧
      s'.producer = .live (writeCalls core rest tx s.block).1 ∧
      s'.block = (writeCalls core rest tx s.block).2 ∧ s'.consumer = s.consumer ∧
      h'.written = h.written ∧
      ((writeCalls core rest tx s.block).1.toBool = true →
        h'.writing = h.writing ++ rest.flatten) := by
  induction rest generalizing s tx h with
  | nil => exact ⟨s, h, hleads, hside, rfl, rfl, rfl, fun _ => by simp⟩
  | cons part rest ih =>
      obtain ⟨s₁, h₁, hproducer₁, hblock₁, hup₁, hconsumer₁⟩ :=
        leads_writePart hleads (hfits part List.mem_cons_self) hside hcurrent core
      have hrest : ∀ part ∈ rest, FitsWord part := fun p hp => hfits p (List.mem_cons_of_mem _ hp)
      let result := tx.impWrite s.block core (part.getD · 0) (UInt64.ofNat part.length)
      have hcalls : writeCalls core (part :: rest) tx s.block =
          writeCalls core rest result.tx result.block := rfl
      change s₁.block = result.block at hblock₁
      change (senderLts parts w vis).Leads _ v
        ⟨⟨s₁, .writing message (if result.ok then rest else [])⟩,
          h.record (if result.ok then .wrote part else .refuseWrite part)⟩ at h₁
      cases hok : result.ok with
      | true =>
          rw [hok, if_pos rfl, if_pos rfl] at h₁
          obtain ⟨s', h', hleads', hproducer, hblock, hconsumer, hwritten, hwriting⟩ :=
            ih h₁ hrest hproducer₁ hup₁
          rw [hcalls, ← hblock₁]
          refine ⟨s', h', hleads', hproducer, hblock, hconsumer.trans hconsumer₁, hwritten, ?_⟩
          intro hvalid
          rw [hwriting hvalid, List.flatten_cons, ← List.append_assoc]
          rfl
      | false =>
          rw [hok] at h₁
          have hvalid : result.tx.toBool = false := (TxWrite.impWrite_ok _ _ _ _ _).symm.trans hok
          have hinvalid : result.tx.invalidated_ = true := Bool.not_eq_eq_eq_not.1 hvalid
          rw [hcalls, writeCalls_of_invalid hinvalid]
          refine ⟨s₁, _, h₁, hproducer₁, hblock₁, hconsumer₁, rfl, ?_⟩
          intro hvalid
          simp [TxWrite.toBool, hinvalid] at hvalid

/-- What a pass of a sender leaves on the queue: the block of `attemptWrite`, the message as one
more committed transaction if it fits, and everything of the consumer alone. -/
structure SendPass (queue : BaseTxQueue) (core : Int32) (calls : List (List UInt8)) (w w' : World) :
    Prop where
  block : w'.state.block = (attemptWrite queue core calls w.state.block).2
  producer : w'.state.producer = .idle queue
  consumer : w'.state.consumer = w.state.consumer
  written : w'.log.written = w.log.written ++
    if (attemptWrite queue core calls w.state.block).1 then [calls.flatten] else []
  writing : w'.log.writing = []

/-- On a queue that is ok every pass of a sender comes to its success branch. -/
theorem leads_succeeded (vis : Visibility) (hok : queue.isOk)
    (hside : w.state.producer = .idle queue) (hwriting : w.log.writing = [])
    (hfits : ∀ part ∈ parts message, FitsWord part) (core : Int32) :
    ∃ v, (senderLts parts w vis).Leads SenderEvent.ofSender ⟨⟨w.state, .start⟩, w.log⟩ v ∧
      v.state.control = .succeeded message ∧ SendPass queue core (parts message) w v.world := by
  obtain ⟨s, h⟩ := w
  obtain ⟨s₁, hopen, hproducer₁, hblock₁, hup₁, hconsumer₁⟩ := System.openWrite_steps vis hside
  have h₀ := Lts.Leads.refl (senderLts parts ⟨s, h⟩ vis) SenderEvent.ofSender ⟨⟨s, .start⟩, h⟩
  have h₁ := h₀.andThen (.send (.openWrite message) hopen) trivial
  have h₂ := h₁.andThen (.send .enter
    ⟨⟨_, hproducer₁, by simp [TxWrite.construct, TxWrite.toBool, hok]⟩, rfl⟩) trivial
  obtain ⟨s₃, log₃, h₃, hproducer₃, hblock₃, hconsumer₃, hwritten₃, hwriting₃⟩ :=
    leads_writeParts h₂ hfits hproducer₁ hup₁ core
  obtain ⟨s₄, hclose, hproducer₄, hblock₄, hconsumer₄⟩ := System.closeWrite_steps vis hproducer₃
  rw [hblock₁] at hproducer₃ hblock₃ hclose hproducer₄ hblock₄ hwriting₃
  rw [hblock₃] at hblock₄
  -- the calls, as `attemptWrite` makes them
  let calls := writeCalls core (parts message)
    (.construct queue s.block.status.tail_ s.block.status.head_) s.block
  have hattempt : attemptWrite queue core (parts message) s.block =
      (calls.1.toBool, calls.1.destroy calls.2) := rfl
  change Step vis s₃ (.closeWrite calls.1.toBool) s₄ at hclose
  have h₄ := h₃.andThen (.send .close hclose) trivial
  refine ⟨_, h₄, rfl, ?_, ?_, ?_, ?_, rfl⟩
  · exact hblock₄.trans (congrArg Prod.snd hattempt).symm
  · show s₄.producer = _
    rw [hproducer₄, writeCalls_queue]
    rfl
  · exact hconsumer₄.trans (hconsumer₃.trans hconsumer₁)
  · show (log₃.record (.closeWrite calls.1.toBool)).written = _
    rw [hattempt]
    cases hvalid : calls.1.toBool with
    | true =>
        have hword : log₃.writing = h.writing ++ (parts message).flatten := hwriting₃ hvalid
        show log₃.written ++ [log₃.writing] = _
        rw [hwritten₃, hword, show h.writing = [] from hwriting, List.nil_append]
        rfl
    | false =>
        show log₃.written = _
        rw [hwritten₃]
        exact (List.append_nil _).symm

end Sender

/-! ## The interactive transmitter -/

/-- The steps of the transmitter. -/
def InteractiveEvent.ofTransmit : InteractiveEvent → Prop
  | .transmit _ => True
  | .receive _ => False

variable {queue : BaseTxQueue} {w : InteractiveWorld}

/-- The two jobs with the transmitter, and the queue, where the sender is. -/
def InteractiveWorld.withSender (w : InteractiveWorld) (v : SenderWorld Message) :
    InteractiveWorld :=
  ⟨⟨v.state.system, v.state.control, w.state.receive⟩, { w.log with history := v.log }⟩

variable (queue) in
/-- The transmitter takes the steps of a sender. -/
theorem leads_withSender {vis : Visibility} {v v' : SenderWorld Message}
    (h : (senderLts Message.parts w.world vis).Leads SenderEvent.ofSender v v') :
    (interactiveWorldLts queue vis).Leads InteractiveEvent.ofTransmit (w.withSender v)
      (w.withSender v') := by
  refine h.map w.withSender ?_
  intro v₁ e v₂ he hstep
  obtain ⟨s₂, log₂⟩ := v₂
  obtain ⟨hstep, rfl⟩ := hstep
  cases hstep with
  | @send a c system hjob hacts =>
      refine ⟨.transmit a, ⟨.transmit (.send hjob) hacts, ?_⟩, trivial⟩
      simp only [InteractiveLog.record, hjob.recordReport_eq]
      rfl
  | consumer => exact he.elim

/-- From any state between two passes the transmitter can make a pass for the next message, and
reports it. -/
theorem leads_press (vis : Visibility) (hok : queue.isOk)
    (hside : w.world.state.producer = .idle queue) (hstart : w.state.transmit = .start)
    (hwriting : w.world.log.writing = []) (core : Int32) (message : Message) :
    ∃ w', (interactiveWorldLts queue vis).Leads InteractiveEvent.ofTransmit w w' ∧
      SendPass queue core message.parts w.world w'.world ∧ w'.state.transmit = .start ∧
      w'.state.receive = w.state.receive ∧ w'.log.sent = w.log.sent ++ [message] ∧
      w'.log.received = w.log.received := by
  obtain ⟨v, hleads, hcontrol, hpass⟩ :=
    leads_succeeded vis hok hside hwriting (fun _ => Message.fitsWord_of_mem) core
  obtain ⟨⟨system, control⟩, log⟩ := v
  obtain rfl : control = .succeeded message := hcontrol
  obtain ⟨⟨s, c, r⟩, h, sent, received⟩ := w
  obtain rfl : c = .start := hstart
  have hsender := leads_withSender queue hleads
  have hreport := hsender.andThen (.transmit .report rfl) trivial
  exact ⟨_, hreport, hpass, rfl, rfl, rfl, rfl⟩

end TxQueue
