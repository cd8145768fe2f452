import Dalvik.Listing.Listener
import Dalvik.Proofs.Constructs

/-!
# Recorders

A recorder never refuses an event: it notes it, and it hands over a recorder for the construct that the
event opens unless that sort of construct is declined. `Listener.handedOver` and `Desk.hear` are these two
results as functions of the desk. A reader whose constructs are all recorded therefore ends only in faults
of its own, and reports the end of the source only where no line is left (`Desk.governs`).
-/

namespace Dalvik

open Listener List

/-- The recorder of the construct that an event opens, with nobody where there is none. -/
def Listener.handedOver (d : Desk) (e : Event) : Listener :=
  match opens e.verb with
  | none => .nobody
  | some (sort, shape) =>
    if d.declined.contains sort then .nobody else .recorder shape s!"{sort}#{d.recorders}"

/-- The desk after a recorder heard an event. -/
def Desk.hear (d : Desk) (label : String) (e : Event) : Desk :=
  match opens e.verb with
  | none => { d with notes := .heard label e none :: d.notes }
  | some (sort, _) =>
    { d with
      recorders := if d.declined.contains sort then d.recorders else d.recorders + 1
      notes := .heard label e (some (handedOver d e).label?) :: d.notes }

/-- A stack with a recorder on top of it. -/
abbrev taped (shape : Shape) (label : String) (st : List (Slot Listener)) : List (Slot Listener) :=
  .node (.recorder shape label) :: st

namespace Desk

theorem outcome_record (label : String) (e : Event) (d : Desk) :
    outcome (record label e) d = (.ok (handedOver d e), d.hear label e) := by
  unfold record handedOver hear
  rcases hop : opens e.verb with _ | ⟨sort, shape⟩
  · rfl
  · by_cases hd : sort ∈ d.declined
    · simp [outcome_bind, outcome_map, hd, handedOver, hop, Except.map]
    · simp [outcome_bind, outcome_map, hd, handedOver, hop, Desk.newRecorder, Except.map]

theorem notes_hear (d : Desk) (label : String) (e : Event) :
    ∃ child?, (d.hear label e).notes = .heard label e child? :: d.notes := by
  unfold hear
  split
  · exact ⟨_, rfl⟩
  · exact ⟨_, rfl⟩

theorem suffix_hear (d : Desk) (label : String) (e : Event) : d.notes <:+ (d.hear label e).notes := by
  obtain ⟨n, hn⟩ := notes_hear d label e
  rw [hn]
  exact suffix_cons _ _

theorem outcome_reading {α : Type} (x : Act α) (src : Source) (k : Cursor) (st : Slots Listener) (d : Desk) :
    outcome (reading x) ⟨src, k, st, d⟩ = ((outcome x d).1, ⟨src, k, st, (outcome x d).2⟩) := by
  rcases hx : outcome x d with ⟨a, d'⟩
  have hx' : x.run.run d = (a, d') := hx
  cases a <;> simp [reading, outcome_bind, Read.outcome_attempt, hx']

theorem outcome_deliver_recorder (copy? : Option (String → Context → Act Unit)) (shape : Shape)
    (label : String) (e : Event) (src : Source) (k : Cursor) (st : Slots Listener) (d : Desk) :
    outcome ((host copy?).deliver (.recorder shape label) e) ⟨src, k, st, d⟩ =
      (.ok (handedOver d e).some?, ⟨src, k, st, d.hear label e⟩) := by
  have hrec := outcome_record label e d
  simp [host, outcome_reading, deliver, outcome_map, hrec, Except.map]

/-- Readers whose constructs are recorded, and whose lines without a listener are noted if wanted. -/
def recording (o : Options) (copied : Bool) : Reader Listener Desk :=
  ⟨o, host (if copied then some noteCopy else none)⟩

section

variable {o : Options} {copied : Bool} {shape : Shape} {label : String} {e : Event} (src : Source)
  (k : Cursor) (st : Slots Listener) (d : Desk)

theorem hasShape_recorder (s : Shape) :
    (recording o copied).hasShape (.node (.recorder shape label)) s = (shape == s) := by
  simp [Reader.hasShape, recording, host, hasShape, shape?]

theorem outcome_sendTo (he : shape.hears e.verb = true) :
    outcome ((recording o copied).sendTo (.node (.recorder shape label)) e) ⟨src, k, st, d⟩
      = (.ok (handedOver d e).some?, ⟨src, k, st, d.hear label e⟩) := by
  have hears : (recording o copied).host.hears (.recorder shape label) e.verb = true := by
    simpa [recording, host, hears, shape?] using he
  rw [(recording o copied).sendTo_node hears]
  exact outcome_deliver_recorder _ shape label e src k st d

theorem outcome_sendTo_refused (he : shape.hears e.verb = false) :
    outcome ((recording o copied).sendTo (.node (.recorder shape label)) e) ⟨src, k, st, d⟩
      = (.error .noOperation, ⟨src, k, st, d⟩) := by
  have hears : (recording o copied).hears (.node (.recorder shape label)) e.verb = false := by
    simpa [Reader.hears, recording, host, hears, shape?] using he
  simp [Reader.sendTo, Reader.require, hears]

theorem outcome_send (he : shape.hears e.verb = true) :
    outcome ((recording o copied).send e) ⟨src, k, taped shape label st, d⟩ = (.ok (handedOver d e).some?,
          ⟨src, k, taped shape label st, d.hear label e⟩) := by
  exact outcome_sendTo src k _ d he

theorem outcome_tell (he : shape.hears e.verb = true) :
    outcome ((recording o copied).tell e) ⟨src, k, taped shape label st, d⟩
      = (.ok (), ⟨src, k, taped shape label st, d.hear label e⟩) := by
  rw [Reader.tell, bind_ok _ (outcome_send src k st d he)]
  rfl

/-- A field is left at no directive of an annotation, and not at the end of a construct; no other construct
is left at all. -/
theorem outcome_leaveField {name : String}
    (h : shape ≠ .field ∨ name = Keyword.annot.text ∨ name = Keyword.close.text) :
    outcome ((recording o copied).leaveField name) ⟨src, k, taped shape label st, d⟩
      = (.ok (), ⟨src, k, taped shape label st, d⟩) := by
  refine Reader.outcome_leaveField _ (h.imp (fun h => ?_) id) src k st d
  simp [hasShape_recorder, h]

end

/-- A slot where a recorder listens, or nobody. -/
def Recorded (slot : Slot Listener) : Prop :=
  ∀ n, slot = .node n → ∃ shape label, n = .recorder shape label

variable (o : Options) {slot : Slot Listener}

/-- A construct that is recorded, or that nobody listens to, takes an event or does not hear it; the event
changes the desk alone, and the construct that it opens is recorded as well. -/
theorem sendTo_recorded (copied : Bool) (hslot : Recorded slot)
    (e : Event) (src : Source) (k : Cursor) (st : Slots Listener) (d : Desk) :
    outcome ((recording o copied).sendTo slot e) ⟨src, k, st, d⟩ = (.error .noOperation, ⟨src, k, st, d⟩) ∨
      ∃ node? d', outcome ((recording o copied).sendTo slot e) ⟨src, k, st, d⟩
        = (.ok node?, ⟨src, k, st, d'⟩) ∧ ∀ n, node? = some n → ∃ shape label, n = .recorder shape label := by
  cases slot with
  | absent => exact .inl rfl
  | blank shape =>
    cases hv : shape.hears e.verb with
    | true => exact .inr ⟨none, d, by simp [Reader.sendTo, Reader.require, Reader.hears, hv], by simp⟩
    | false => exact .inl (by simp [Reader.sendTo, Reader.require, Reader.hears, hv])
  | node n =>
    obtain ⟨shape, label, rfl⟩ := hslot n rfl
    cases hv : shape.hears e.verb with
    | false => exact .inl (outcome_sendTo_refused src k st d hv)
    | true =>
      refine .inr ⟨_, _, outcome_sendTo src k st d hv, ?_⟩
      unfold handedOver
      split
      · simp [some?]
      · split <;> simp [some?]

theorem copyLine_recorded (copied : Bool) (src : Source) (k : Cursor) (st : Slots Listener) (d : Desk) :
    (∃ f, outcome (recording o copied).copyLine ⟨src, k, st, d⟩ = (.error f, ⟨src, k, st, d⟩) ∧ f.ofReading = true) ∨
      ∃ d', outcome (recording o copied).copyLine ⟨src, k, st, d⟩ = (.ok (), ⟨src, k, st, d'⟩) := by
  cases copied with
  | false => exact .inr ⟨d, rfl⟩
  | true =>
    match k, st with
    | ⟨none, ws⟩, _ => exact .inl ⟨.noOperation, rfl, rfl⟩
    | ⟨some l, ws⟩, [] => exact .inl ⟨.noElement, rfl, rfl⟩
    | ⟨some l, ws⟩, slot :: st => exact .inr ⟨_, rfl⟩

/-- The contract of readers whose constructs are recorded: lines are only taken from the source, the end
of the source is reported only where no line is left, and all other faults are those of reading. -/
def contract : Contract (Session Listener Desk) where
  holds s := ∀ slot ∈ s.stack, Recorded slot
  leads s t := t.source.lines <:+ s.source.lines
  admits f s := f.ofReading = true ∨ f = .endOfSource ∧ s.source.lines = []
  refl _ := suffix_rfl
  trans h h' := h'.trans h

theorem sendTo_keptAt (copied : Bool) (hslot : Recorded slot)
    (e : Event) {s : Session Listener Desk} (hs : contract.holds s) :
    contract.KeptAt ((recording o copied).sendTo slot e) s := by
  obtain ⟨src, k, st, d⟩ := s
  rcases sendTo_recorded o copied hslot e src k st d with he | ⟨node?, d', he, -⟩
  · exact .of_error he hs suffix_rfl (.inl rfl)
  · exact .of_ok he hs suffix_rfl

theorem governs (copied : Bool) :
    (recording o copied).Governs contract fun n => ∃ shape label, n = .recorder shape label where
  moves s k hs := ⟨hs, suffix_rfl⟩
  takes s l ls hs hl := ⟨hs, by simp [contract, hl]⟩
  shrinks s t hst := hst.length_le
  faults f s _ hf := .inl hf
  ends s _ hl := .inr ⟨rfl, hl⟩
  fits n rest s hs hst := hs (.node n) (by simp [hst]) n rfl
  copies s hs := by
    obtain ⟨src, k, st, d⟩ := s
    rcases copyLine_recorded o copied src k st d with ⟨f, hf, hr⟩ | ⟨d', hd⟩
    · exact .of_error hf hs suffix_rfl (.inl hr)
    · exact .of_ok hd hs suffix_rfl
  opens slot s hs hslot := ⟨by
    intro x hx
    rcases mem_cons.mp hx with rfl | hx
    · exact hslot
    · exact hs x hx, suffix_rfl⟩
  closes slot rest s hs hst := ⟨fun x hx => hs x (by simp [hst, hx]), suffix_rfl⟩
  delivers n e s hs hn := sendTo_keptAt o copied (fun _ hm => Slot.node.inj hm ▸ hn) e hs
  breeds n e s t m _ hn he := by
    obtain ⟨src, k, st, d⟩ := s
    rcases sendTo_recorded o copied (fun _ hm => Slot.node.inj hm ▸ hn) e src k st d with he' | ⟨node?, d', he', hnode⟩
    · rw [he'] at he
      cases he
    · rw [he'] at he
      cases he
      exact hnode m rfl

end Desk

end Dalvik
