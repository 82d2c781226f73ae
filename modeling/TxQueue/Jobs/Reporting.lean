import TxQueue.Jobs.Interactive
import TxQueue.Jobs.Sending

/-!
# When a reported message is committed

A sender reports every message whose transaction was valid when it was opened. The message is
committed if each availability check of `imp_write` on the way has found room, and lost at the first
that has not: the transaction is invalid from there on, and the sender reports the message all the
same. `Reporting` keeps account of both over a run.
-/

namespace TxQueue

open Library

variable {μ : Type*}

/-- `data` fits behind the local tail, in the lap before the spare slot that begins at the newest
head that the producer has loaded by the time of `w'`. -/
def World.HasRoomFor (cap : UInt64) (w w' : World) (data : List UInt8) : Prop :=
  w.log.localTail + data.length ≤ w'.seenHead + (cap.toNat - 1)

/-- If the action is an availability check, then there is room. -/
def ReportAction.HasRoom (cap : UInt64) (w w' : World) : ReportAction μ → Prop
  | .call (.beginWrite data) => w.HasRoomFor cap w' data
  | .call (.refuseWrite data) => w.HasRoomFor cap w' data
  | _ => True

namespace Indices

variable {cap : UInt64} {vis : Visibility} {s s' : System} {h : History} {data : List UInt8}

/-- An availability check that succeeds has found room. -/
theorem hasRoomFor_of_beginWrite (hcap : IsPowTwo cap) (hi : Indices cap ⟨s, h⟩)
    (hstep : Step vis s (.beginWrite data) s') : World.HasRoomFor cap ⟨s, h⟩ ⟨s', h⟩ data := by
  have hspace := (hi.beginWrite hcap hstep).space
  have hpending : s'.producer.pending = data.length := by
    cases hstep with
    | beginWrite buffer size k hle hlt hside hreserve => simp [Producer.pending]
  rw [hpending] at hspace
  exact hspace

/-- An availability check that fails on a valid transaction has found no room. -/
theorem not_hasRoomFor_of_refuseWrite (hcap : IsPowTwo cap) (hi : Indices cap ⟨s, h⟩)
    (hvalid : s.producer.isValid = true) (hstep : Step vis s (.refuseWrite data) s') :
    ¬ World.HasRoomFor cap ⟨s, h⟩ ⟨s', h⟩ data := by
  have hspace := hi.space
  have hproducer := hi.producer
  have hheadtail : h.head ≤ h.tail := hi.head_le_tail
  have hlocalTail : h.localTail = h.tail + h.writing.length := rfl
  simp only [World.seenHead] at hspace hproducer
  cases hstep with
  | @refuseWrite tx tx' buffer size k core hle hlt hside hreserve =>
      simp only [hside, Producer.pending, Producer.Placed] at hspace hproducer
      simp only [hside, Producer.isValid, TxWrite.toBool, Bool.not_eq_true'] at hvalid
      have hat := hproducer.reserve_error (hi.heads.value k hlt) hreserve
      obtain ⟨-, hload, -⟩ := TxWrite.reserve_eq_error hreserve
      obtain ⟨hreloads, hless⟩ := hload hvalid
      rw [hreloads, if_pos rfl] at hat
      -- the check goes by the head that it has loaded
      have hmono := boundary_mono h.consumed hle
      have hseen : boundary h.consumed k ≤ h.head := boundary_le h.consumed k
      rw [UInt64.lt_iff_toNat_lt, hat.space_toNat hcap (by omega) (by omega)] at hless
      unfold World.HasRoomFor
      simp only [World.seenHead, Channel.acquireIf_observed, hreloads, if_true, length_bytes]
      omega

end Indices

namespace SendControl

/-- The message that the sender is about to report, its transaction being closed. -/
def pending : SendControl μ → List μ
  | .succeeded message => [message]
  | _ => []

/-- The number of messages that will be reported without a further commit. -/
def owed (valid : Bool) : SendControl μ → ℕ
  | .writing _ _ => if valid then 0 else 1
  | .succeeded _ => 1
  | _ => 0

/-- What a control point of a sender says about the open transaction. -/
def Placed (parts : μ → List (List UInt8)) (valid : Bool) (writing : List UInt8) :
    SendControl μ → Prop
  | .opened _ => writing = []
  | .writing message rest =>
      (rest ≠ [] → valid) ∧ (valid → writing ++ rest.flatten = (parts message).flatten)
  | .skipped => valid = false
  | _ => True

end SendControl

/-- The invariant of a sender that started with `base` committed, and has reported `sent`. What it
has committed are messages; these are the reported ones as long as `kept` holds, and too few once
it does not. -/
structure Reporting (parts : μ → List (List UInt8)) (base : List (List UInt8))
    (control : SendControl μ) (valid : Bool) (h : History) (sent : List μ) (kept : Prop) :
    Prop where
  placed : control.Placed parts valid h.writing
  messages : ∃ committed : List μ,
    h.written = base ++ committed.map fun message => (parts message).flatten
  reported : kept → control.owed valid = control.pending.length ∧
    h.written = base ++ (sent ++ control.pending).map fun message => (parts message).flatten
  lost : ¬ kept → h.written.length < base.length + sent.length + control.owed valid

namespace Reporting

variable {parts : μ → List (List UInt8)} {base : List (List UInt8)}
  {control control' : SendControl μ} {valid valid' : Bool} {h h' : History} {sent : List μ}
  {kept kept' : Prop} {a : ReportAction μ} {cap : UInt64} {vis : Visibility} {s s' : System}

/-- A step that commits nothing and leaves the account as it is. -/
theorem goto (hi : Reporting parts base control valid h sent kept) (hkept : kept' ↔ kept)
    (hcontrol : control'.Placed parts valid' h'.writing) (hwritten : h'.written = h.written)
    (howed : control'.owed valid' = control.owed valid)
    (hpending : control'.pending = control.pending) :
    Reporting parts base control' valid' h' sent kept' := by
  refine ⟨hcontrol, ?_, ?_, ?_⟩
  · rw [hwritten]
    exact hi.messages
  · rw [hwritten, howed, hpending, hkept]
    exact hi.reported
  · rw [hwritten, howed, hkept]
    exact hi.lost

/-- Every step of a sender on its transaction keeps the invariant, and the account of the messages
as long as each availability check finds room. -/
theorem step (hcap : IsPowTwo cap) (hindices : Indices cap ⟨s, h⟩)
    (hi : Reporting parts base control s.producer.isValid h sent kept)
    (hjob : SendStep parts control a control') (hacts : s.ProducerActs vis a.onQueue s') :
    Reporting parts base control' s'.producer.isValid (a.record h) sent
      (kept ∧ a.HasRoom cap ⟨s, h⟩ ⟨s', a.record h⟩) := by
  have hcontrol := hi.placed
  cases hjob with
  | openWrite message =>
      have hwriting := Sending.writing_of_openWrite hindices hacts
      exact hi.goto (and_iff_left trivial) hwriting rfl rfl rfl
  | enter =>
      obtain ⟨rfl, hvalid⟩ := System.ProducerActs.of_test hacts
      refine hi.goto (and_iff_left trivial) ⟨fun _ => hvalid, fun _ => ?_⟩ rfl ?_ rfl
      · show h.writing ++ _ = _
        rw [show h.writing = [] from hcontrol, List.nil_append]
      · simp [SendControl.owed, hvalid]
  | skip =>
      obtain ⟨rfl, hinvalid⟩ := System.ProducerActs.of_test hacts
      exact hi.goto (and_iff_left trivial) hinvalid rfl rfl rfl
  | beginWrite =>
      have hroom := hindices.hasRoomFor_of_beginWrite hcap hacts
      have hvalid := Step.beginWrite_isValid hacts
      rw [hvalid]
      exact hi.goto (and_iff_left hroom) hcontrol rfl rfl rfl
  | copyIn =>
      have hvalid := Step.copyIn_isValid hacts
      rw [hvalid]
      exact hi.goto (and_iff_left trivial) hcontrol rfl rfl rfl
  | @wrote message part rest =>
      have hvalid := Step.wrote_isValid hacts
      rw [hvalid]
      obtain ⟨hopen, hwriting⟩ := hcontrol
      have hstill := hopen (List.cons_ne_nil _ _)
      refine hi.goto (and_iff_left trivial) ⟨fun _ => hstill, fun _ => ?_⟩ rfl rfl rfl
      show h.writing ++ part ++ rest.flatten = _
      rw [List.append_assoc, ← List.flatten_cons]
      exact hwriting hstill
  -- the message is lost: what follows will report it, but cannot commit it any more
  | @refuseWrite message part rest =>
      have hvalid := hcontrol.1 (List.cons_ne_nil _ _)
      have hinvalid := Step.refuseWrite_isValid hacts
      have hroom := hindices.not_hasRoomFor_of_refuseWrite hcap hvalid hacts
      rw [hinvalid]
      refine ⟨⟨fun h => absurd rfl h, by simp⟩, hi.messages, fun h => absurd h.2 hroom, fun _ => ?_⟩
      show h.written.length < base.length + sent.length + 1
      by_cases hkept : kept
      · have hwritten := congrArg List.length (hi.reported hkept).2
        simp only [SendControl.pending, List.append_nil, List.length_append, List.length_map]
          at hwritten
        omega
      · have hlost := hi.lost hkept
        simp only [SendControl.owed, hvalid, if_true] at hlost
        omega
  | closeSkipped =>
      have hpublished := Step.closeWrite_published hacts
      have hinvalid : s.producer.isValid = false := hcontrol
      rw [hinvalid] at hpublished
      subst hpublished
      exact hi.goto (and_iff_left trivial) trivial rfl rfl rfl
  | @close message published =>
      have hpublished := Step.closeWrite_published hacts
      subst hpublished
      obtain ⟨-, hwriting⟩ := hcontrol
      cases hvalid : s.producer.isValid with
      | true =>
          rw [hvalid] at hi
          have hword : h.writing = (parts message).flatten := by simpa using hwriting hvalid
          obtain ⟨committed, hcommitted⟩ := hi.messages
          refine ⟨trivial, ⟨committed ++ [message], ?_⟩, fun hkept => ⟨rfl, ?_⟩, fun hlost => ?_⟩
          · show h.written ++ [h.writing] = _
            simp [hcommitted, hword]
          · show h.written ++ [h.writing] = _
            simp [(hi.reported hkept.1).2, hword, SendControl.pending]
          · have hlost := hi.lost fun hkept => hlost ⟨hkept, trivial⟩
            show (h.written ++ [h.writing]).length < base.length + sent.length + 1
            rw [List.length_append, List.length_singleton]
            exact Nat.add_lt_add_right hlost 1
      | false =>
          rw [hvalid] at hi
          refine ⟨trivial, hi.messages, fun hkept => ?_, fun hlost => ?_⟩
          · have howed := (hi.reported hkept.1).1
            simp [SendControl.owed, SendControl.pending] at howed
          · exact hi.lost fun hkept => hlost ⟨hkept, trivial⟩

/-- A step of the consumer leaves the invariant of a sender alone. -/
theorem of_consumer {e : Event} (hi : Reporting parts base control s.producer.isValid h sent kept)
    (he : e.ofProducer = false) (hstep : Step vis s e s') :
    Reporting parts base control s'.producer.isValid (h.record e) sent kept := by
  obtain ⟨hwritten, hwriting⟩ := h.record_of_consumer he
  have hproducer := Step.producer_eq hstep he
  rw [hproducer]
  refine hi.goto Iff.rfl ?_ hwritten rfl rfl
  rw [hwriting]
  exact hi.placed

/-- The line about a message closes its account. -/
theorem report {message : μ}
    (hi : Reporting parts base (.succeeded message) valid h sent kept) :
    Reporting parts base .start valid h (sent ++ [message]) kept := by
  refine ⟨trivial, hi.messages, fun hkept => ⟨rfl, ?_⟩, fun hlost => ?_⟩
  · have hwritten := (hi.reported hkept).2
    simpa [SendControl.pending] using hwritten
  · have hlost := hi.lost hlost
    rw [List.length_append, List.length_singleton, ← Nat.add_assoc]
    exact hlost

/-- A pass that has failed leaves nothing to account for. -/
theorem again (hi : Reporting parts base .failed valid h sent kept) :
    Reporting parts base .start valid h sent kept :=
  hi.goto Iff.rfl trivial rfl rfl rfl

/-- A sender that starts has nothing to account for. -/
theorem of_start (parts : μ → List (List UInt8)) (valid : Bool) (h : History) (kept : Prop)
    (hkept : kept) : Reporting parts h.written .start valid h [] kept :=
  ⟨trivial, ⟨[], by simp⟩, fun _ => ⟨rfl, by simp [SendControl.pending]⟩, fun hlost =>
    absurd hkept hlost⟩

section Interactive

variable {control control' : SendControl Message} {sent : List Message} {a : ReportAction Message}

/-- Every step of the transmitter keeps the invariant, and the account of the messages as long as
each availability check finds room. -/
theorem transmit (hcap : IsPowTwo cap) (hindices : Indices cap ⟨s, h⟩)
    (hi : Reporting Message.parts base control s.producer.isValid h sent kept)
    (hjob : InteractiveTransmitStep control a control') (hacts : s.ProducerActs vis a.onQueue s') :
    Reporting Message.parts base control' s'.producer.isValid (a.record h) (a.recordReport sent)
      (kept ∧ a.HasRoom cap ⟨s, h⟩ ⟨s', a.record h⟩) := by
  cases hjob with
  | send hsend =>
      rw [hsend.recordReport_eq]
      exact hi.step hcap hindices hsend hacts
  | report =>
      obtain rfl := hacts
      exact hi.report.goto (and_iff_left trivial) trivial rfl rfl rfl
  | again =>
      obtain rfl := hacts
      exact hi.again.goto (and_iff_left trivial) trivial rfl rfl rfl

/-- A step of the receiver leaves the invariant of the transmitter alone. -/
theorem of_receive {c c' : InteractiveReceiveControl}
    (hi : Reporting Message.parts base control s.producer.isValid h sent kept)
    (hjob : InteractiveReceiveStep c a c') (hacts : s.ConsumerActs vis a.onQueue s') :
    Reporting Message.parts base control s'.producer.isValid (a.record h) sent kept := by
  rcases ReportAction.consumerActs_cases hacts with ⟨e, rfl, hstep⟩ | ⟨rfl, hrecord⟩
  · exact hi.of_consumer hjob.ofProducer hstep
  · rw [hrecord]
    exact hi

end Interactive

end Reporting

end TxQueue
