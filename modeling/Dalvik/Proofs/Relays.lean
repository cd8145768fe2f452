import Dalvik.Proofs.Audience
import Dalvik.Proofs.Pairing
import Dalvik.Proofs.Recorders

/-!
# Recorders behind relays

A relay hands on what it hears, so a recorder behind any number of relays should hear what it hears alone. Two
events stand in the way. A handler of all errors is handed on as a handler of one type, and a list of values is not
handed on at all. A relay is put in front of the root alone: whatever the root hands over is called without it.

The reading with the root and the reading with the relays are a pair of sessions that differ in the outermost
construct (`Listener.Relayed.pairing`). It follows that the recorders hear the same exactly if the relays are told
neither of the two events, and what they hear otherwise (`Desk.visit_relayed_iff`).
-/

namespace Dalvik

open Read Listener Desk List Audience

variable {e e' : Event}

/-- A listener behind relays of a shape. -/
def Listener.behind (shape : Shape) : Nat → Listener → Listener
  | 0, l => l
  | n + 1, l => .relay shape (behind shape n l)

/-- Whether a note is of an event. -/
def Note.isHeard : Note → Bool
  | heard _ _ _ => true
  | copied _ _ => false

/-- The events that were noted, latest first. -/
def Desk.heard (d : Desk) : List Note :=
  d.notes.filter Note.isHeard

/-- Listeners at a desk as an audience, with the lines noted that nobody listens to if wanted. -/
def Desk.audience (copied : Bool) : Audience Listener Desk where
  hears := hears
  hasShape := hasShape
  answer l e := do pure (← l.deliver e).some?
  keep? := if copied then some fun line slot => noteCopy line (.ofSlot slot) else none

namespace Listener

theorem handedOn_handedOn (e : Event) : handedOn (handedOn e) = handedOn e := by
  cases e with
  | field name flags type value? => cases value? <;> rfl
  | _ => rfl

theorem verb_handedOn_ne (h : e.verb ≠ .array) : (handedOn e).verb ≠ .array := by
  cases e with
  | field name flags type value? => cases value? <;> exact nofun
  | catchingAll => exact nofun
  | _ => exact h

theorem opens_handedOn (e : Event) : opens (handedOn e).verb = opens e.verb := by
  cases e with
  | field name flags type value? => cases value? <;> rfl
  | _ => rfl

theorem hears_handedOn {shape : Shape} (h : shape.hears e.verb = true) : shape.hears (handedOn e).verb = true := by
  cases e with
  | field name flags type value? => cases value? <;> exact h
  | catchingAll type labels =>
    cases shape with
    | method => rfl
    | _ => exact h
  | _ => exact h

theorem shape_behind (shape : Shape) (label : String) (n : Nat) :
    (behind shape n (recorder shape label)).shape? = some shape := by
  cases n <;> rfl

/-- What relays do with an event that their shape hears: a list of values is too much for them, and everything
else reaches the recorder as it is handed on once. -/
theorem deliver_behind {shape : Shape} (label : String) (n : Nat) (he : shape.hears e.verb = true) :
    (behind shape (n + 1) (recorder shape label)).deliver e
      = if e.verb = .array then throw .endless else record label (handedOn e) := by
  induction n generalizing e with
  | zero =>
    have hears : (recorder shape label).hears (handedOn e).verb = true := by
      simpa [hears, shape?] using hears_handedOn he
    simp [behind, deliver, hears]
  | succ n ih =>
    have hears : (behind shape (n + 1) (recorder shape label)).hears (handedOn e).verb = true := by
      simpa [hears, shape_behind] using hears_handedOn he
    have hstep : (behind shape (n + 2) (recorder shape label)).deliver e = if e.verb = .array then throw .endless
          else if (behind shape (n + 1) (recorder shape label)).hears (handedOn e).verb then
            (behind shape (n + 1) (recorder shape label)).deliver (handedOn e)
          else throw .noOperation := rfl
    rw [hstep, hears, ih (hears_handedOn he), handedOn_handedOn]
    by_cases harray : e.verb = .array
    · rw [if_pos harray, if_pos harray]
    · rw [if_pos rfl, if_neg (verb_handedOn_ne harray)]

end Listener

/-- A note of the reading with the root, and the note of the reading with relays in front of it. -/
inductive Note.Relayed (label : String) : Note → Note → Prop
  | same (note : Note) : Relayed label note note
  | copied (line : String) (c c' : Context) : Relayed label (.copied line c) (.copied line c')
  | handler (type labels : Datum) (opened : Option (Option String)) :
    Relayed label (.heard label (.catchingAll type labels) opened) (.heard label (.catching type labels) opened)

namespace Desk

variable {d d' : Desk}

section

variable (hr : d'.recorders = d.recorders) (hd : d'.declined = d.declined) (he : opens e'.verb = opens e.verb)

include hr hd he

theorem handedOver_congr : handedOver d' e' = handedOver d e := by
  simp only [handedOver, hr, hd, he]

theorem recorders_hear_congr (label label' : String) :
    (d'.hear label' e').recorders = (d.hear label e).recorders ∧ (d'.hear label' e').declined = d.declined := by
  simp only [hear, he]
  cases opens e.verb <;> simp [hr, hd]

end

theorem notes_hear_eq (d : Desk) (label : String) (e : Event) : (d.hear label e).notes
      = .heard label e ((opens e.verb).map fun _ => (handedOver d e).label?) :: d.notes := by
  unfold hear
  cases opens e.verb <;> rfl

theorem heard_hear (d : Desk) (label : String) (e : Event) : (d.hear label e).heard
      = .heard label e ((opens e.verb).map fun _ => (handedOver d e).label?) :: d.heard := by
  rw [heard, notes_hear_eq]
  rfl

theorem outcome_answer_recorder (copied : Bool) (shape : Shape) (label : String) (e : Event) (d : Desk) :
    outcome ((audience copied).answer (.recorder shape label) e) d = (.ok (handedOver d e).some?, d.hear label e) := by
  have hrec := outcome_record label e d
  simp [audience, deliver, outcome_map, hrec, Except.map]

theorem outcome_answer_behind (copied : Bool) {shape : Shape} {label : String} (n : Nat)
    (he : shape.hears e.verb = true) (d : Desk) :
    outcome ((audience copied).answer (.behind shape (n + 1) (.recorder shape label)) e) d
      = if e.verb = .array then (.error .endless, d)
        else (.ok (handedOver d e).some?, d.hear label (handedOn e)) := by
  have hdeliver := deliver_behind label n he
  by_cases harray : e.verb = .array
  · rw [if_pos harray] at hdeliver ⊢
    simp only [audience, hdeliver]
    rfl
  · rw [if_neg harray] at hdeliver ⊢
    have hrec := outcome_record label (handedOn e) d
    have hover : handedOver d (handedOn e) = handedOver d e :=
      handedOver_congr rfl rfl (opens_handedOn e)
    simp [audience, hdeliver, outcome_map, hrec, Except.map, hover]

end Desk

/-! ### The two readings as a pair -/

/-- Listeners of the reading with the root and of the reading with relays in front of it. -/
inductive Listener.Relays (shape : Shape) (label : String) (n : Nat) : Listener → Listener → Prop
  | recorder (s : Shape) (l : String) : Relays shape label n (.recorder s l) (.recorder s l)
  | root : Relays shape label n (.recorder shape label) (.behind shape (n + 1) (.recorder shape label))

namespace Relays

variable (shape : Shape) (label : String) (n : Nat)

/-- The outermost relay. -/
abbrev outermost : Listener := .behind shape (n + 1) (.recorder shape label)

/-- A session with the root and one with relays in front of it, as long as no list of values was told to them. -/
structure Accords (s s' : Session Listener (Attendance Listener Desk)) : Prop where
  source_eq : s'.source = s.source
  cursor_eq : s'.cursor = s.cursor
  stack : Forall₂ (Slot.Twin (Relays shape label n)) s.stack s'.stack
  recorders_eq : s'.world.own.recorders = s.world.own.recorders
  declined_eq : s'.world.own.declined = s.world.own.declined
  notes : Forall₂ (Note.Relayed label) s.world.own.notes s'.world.own.notes
  told : ∀ e, (outermost shape label n, e) ∈ s'.world.calls → shape.hears e.verb = true ∧ e.verb ≠ .array
  heard_eq : s'.world.own.heard = s.world.own.heard ↔
    ∀ e, (outermost shape label n, e) ∈ s'.world.calls → e.verb ≠ .catchingAll

/-- Relays were told a list of values: they had heard what the root had heard before it. -/
def Overrun (d : Desk) (w' : Attendance Listener Desk) : Prop :=
  shape = .annot ∧ (∃ e, (outermost shape label n, e) ∈ w'.calls ∧ e.verb = .array) ∧
    ∃ later name values before, d.notes = later ++ .heard label (.array name values) none :: before ∧
      w'.own.heard = before.filter Note.isHeard

/-- The two readings, which part where the relays are told a list of values. -/
def pairing : Reader.Pairing Listener (Attendance Listener Desk) Listener (Attendance Listener Desk) where
  Peer := Relays shape label n
  Rel := Accords shape label n
  cursor_eq h := h.cursor_eq
  move h k := { h with cursor_eq := rfl }
  stack h := h.stack
  restack h _ _ hst := { h with stack := hst }
  Grows w w' := w.own.notes <:+ w'.own.notes
  grows_refl w := suffix_rfl
  grows_trans h h' := h.trans h'
  exit := .endless
  halt? := none
  Part t t' := Overrun shape label n t.world.own t'.world
  part_grows _ := by
    rintro t u t' ⟨hshape, hcall, later, name, values, before, hnotes, hheard⟩ ⟨more, hmore⟩
    refine ⟨hshape, hcall, more ++ later, name, values, before, ?_, hheard⟩
    rw [← hmore, hnotes, append_assoc]

variable {shape label n} (copied : Bool) {l l' : Listener}

theorem Accords.call {s s' : Session Listener (Attendance Listener Desk)} (h : Accords shape label n s s')
    {lb : String} {e e' : Event} (hopens : opens e'.verb = opens e.verb)
    (hnote : ∀ opened, Note.Relayed label (.heard lb e opened) (.heard lb e' opened))
    (htold : l' = outermost shape label n → shape.hears e.verb = true ∧ e.verb ≠ .array)
    (heq : e' = e ↔ (l' = outermost shape label n → e.verb ≠ .catchingAll)) :
    Accords shape label n { s with world := ⟨s.world.own.hear lb e, s.world.calls ++ [(l, e)]⟩ }
      { s' with world := ⟨s'.world.own.hear lb e', s'.world.calls ++ [(l', e)]⟩ } where
  source_eq := h.source_eq
  cursor_eq := h.cursor_eq
  stack := h.stack
  recorders_eq := (recorders_hear_congr h.recorders_eq h.declined_eq hopens _ _).1
  declined_eq := by
    have h' := (recorders_hear_congr h.recorders_eq h.declined_eq hopens lb lb).2
    have h'' := (recorders_hear_congr (d := s.world.own) rfl rfl rfl lb lb (e := e)).2
    exact h'.trans h''.symm
  notes := by
    rw [notes_hear_eq, notes_hear_eq, hopens, handedOver_congr h.recorders_eq h.declined_eq hopens]
    exact .cons (hnote _) h.notes
  told e₁ he₁ := by
    rcases mem_append.mp he₁ with hmem | hmem
    · exact h.told e₁ hmem
    · obtain ⟨rfl, rfl⟩ : outermost shape label n = l' ∧ e₁ = e := by simpa using hmem
      exact htold rfl
  heard_eq := by
    rw [heard_hear, heard_hear, hopens, handedOver_congr h.recorders_eq h.declined_eq hopens]
    simp only [cons.injEq, Note.heard.injEq, true_and, and_true, h.heard_eq, heq, mem_append,
      mem_singleton, Prod.mk.injEq]
    constructor
    · rintro ⟨hnew, hold⟩ e₁ (hmem | ⟨hl, rfl⟩)
      · exact hold e₁ hmem
      · exact hnew hl.symm
    · intro hall
      exact ⟨fun hl => hall e (.inr ⟨hl.symm, rfl⟩), fun e₁ hmem => hall e₁ (.inl hmem)⟩

theorem handedOn_eq_iff (he : e.Told ∨ ∃ text, e = .comment text) : handedOn e = e ↔ e.verb ≠ .catchingAll := by
  cases e with
  | catchingAll type labels => exact ⟨nofun, fun h => absurd rfl h⟩
  | field name flags type value? =>
    cases value? with
    | some value => exact ⟨nofun, fun _ => rfl⟩
    | none => exact he.elim nofun nofun
  | _ => exact ⟨nofun, fun _ => rfl⟩

theorem handedOver_peer (d : Desk) (e : Event) :
    Option.Rel (Relays shape label n) (handedOver d e).some? (handedOver d e).some? := by
  unfold handedOver
  split
  · exact .none
  · split
    · exact .none
    · exact .some (.recorder _ _)

theorem sound_deliver (s : Shape) (l : String) (e : Event) :
    (pairing shape label n).Sound (Option.Rel (pairing shape label n).Peer)
      ((audience copied).host.deliver (.recorder s l) e) := by
  intro q hq
  rw [outcome_deliver, outcome_answer_recorder]
  refine ⟨hq, suffix_hear _ _ _, fun a ha => ?_⟩
  cases ha
  exact ⟨_, handedOver_peer _ e⟩

theorem agree_deliver (h : Relays shape label n l l')
    (he : e.Told ∨ ∃ text, e = .comment text) (hears : l.hears e.verb = true) :
    (pairing shape label n).Agree (Option.Rel (pairing shape label n).Peer)
      ((audience copied).host.deliver l e) ((audience copied).host.deliver l' e) := by
  cases h with
  | recorder s lb =>
    refine ⟨sound_deliver copied s lb e, fun q q' hq => .inl ?_⟩
    rw [outcome_deliver, outcome_deliver, outcome_answer_recorder,
      outcome_answer_recorder, handedOver_congr hq.recorders_eq hq.declined_eq rfl]
    have hne : Listener.recorder s lb ≠ outermost shape label n := Listener.noConfusion
    exact ⟨.ok (handedOver_peer _ e), hq.call rfl (fun _ => .same _) (fun h => absurd h hne)
      ⟨fun _ h => absurd h hne, fun _ => rfl⟩⟩
  | root =>
    have hshape : shape.hears e.verb = true := by simpa [Listener.hears, Listener.shape?] using hears
    refine ⟨sound_deliver copied shape label e, fun q q' hq => ?_⟩
    rw [outcome_deliver, outcome_deliver, outcome_answer_recorder, outcome_answer_behind copied n hshape]
    by_cases harray : e.verb = .array
    · -- the root notes the list, and the relays fail
      right
      have hannot : shape = .annot := by
        rw [harray] at hshape
        cases shape <;> first | rfl | cases hshape
      obtain ⟨name, values, rfl⟩ : ∃ name values, e = .array name values := by
        cases e <;> first | exact ⟨_, _, rfl⟩ | cases harray
      refine ⟨rfl, fun f hf => absurd hf (Option.some_ne_none f).symm, hannot,
        ⟨_, mem_append_right _ mem_cons_self, rfl⟩, [], name, values, q.world.own.notes,
        notes_hear_eq _ _ _, ?_⟩
      refine hq.heard_eq.mpr fun e₁ he₁ hall => ?_
      have := (hq.told e₁ he₁).1
      rw [hall, hannot] at this
      cases this
    · left
      rw [if_neg harray]
      have hopens := opens_handedOn e
      rw [handedOver_congr hq.recorders_eq hq.declined_eq rfl]
      refine ⟨.ok (handedOver_peer _ e), hq.call hopens (fun opened => ?_) (fun _ => ⟨hshape, harray⟩) ?_⟩
      · by_cases hall : e.verb = .catchingAll
        · obtain ⟨type, labels, rfl⟩ : ∃ type labels, e = .catchingAll type labels := by
            cases e <;> first | exact ⟨_, _, rfl⟩ | cases hall
          exact .handler type labels opened
        · rw [(handedOn_eq_iff he).mpr hall]
          exact .same _
      · rw [handedOn_eq_iff he]
        exact ⟨fun h _ => h, fun h => h rfl⟩

theorem agree_copyLine (o : Options) : (pairing shape label n).Agree Eq ((audience copied).reader o).copyLine
      ((audience copied).reader o).copyLine := by
  cases copied with
  | false => exact Reader.Pairing.agree_ret rfl
  | true =>
    have hkeep (line : String) {slot slot' : Slot Listener} (_ : Slot.Twin (pairing shape label n).Peer slot slot') :
        (pairing shape label n).Agree Eq (act (noteCopy line (.ofSlot slot)))
          (act (noteCopy line (.ofSlot slot'))) := by
      refine ⟨fun s hs => ?_, fun s s' hs => .inl ?_⟩
      · exact ⟨hs, suffix_cons _ _, fun a _ => ⟨a, rfl⟩⟩
      · exact ⟨.ok rfl, { hs with notes := .cons (.copied _ _ _) hs.notes }⟩
    refine (Reader.Pairing.agree_onLine parallel_currentLine).bind fun line _ hline =>
      Reader.Pairing.agree_top.bind fun slot slot' ht => ?_
    rw [← hline]
    exact hkeep line.raw ht

theorem attends (o : Options) :
    (pairing shape label n).Attends ((audience copied).reader o) ((audience copied).reader o) where
  options_eq := rfl
  hears_eq h v := by
    cases h with
    | recorder s l => rfl
    | root => rfl
  hasShape_eq h s := by
    cases h with
    | recorder s l => rfl
    | root => rfl
  deliver h _ he hears := agree_deliver copied h he hears
  copyLine := agree_copyLine copied o
  exit_ne := nofun
  halt_ne := nofun

theorem shares : (pairing shape label n).Shares where
  source_eq h := h.source_eq
  resource h _ := { h with source_eq := rfl }
  exit_loud := rfl
  halt_loud := nofun

theorem twin_of_recorded {slot : Slot Listener} (h : Recorded slot) : Slot.Twin (Relays shape label n) slot slot := by
  cases slot with
  | absent => exact .absent
  | blank s => exact .blank s
  | node l =>
    obtain ⟨s, lb, rfl⟩ := h l rfl
    exact .node (.recorder s lb)

theorem accords_start {st : Slots Listener} (hst : ∀ slot ∈ st, Recorded slot) (q : Source) (k : Cursor)
    (d : Desk) : Accords shape label n ⟨q, k, st, ⟨d, []⟩⟩ ⟨q, k, st, ⟨d, []⟩⟩ where
  source_eq := rfl
  cursor_eq := rfl
  stack := forall₂_same.mpr fun slot hslot => twin_of_recorded (hst slot hslot)
  recorders_eq := rfl
  declined_eq := rfl
  notes := forall₂_same.mpr fun note _ => .same note
  told := nofun
  heard_eq := ⟨fun _ => nofun, fun _ => rfl⟩

end Relays

namespace Desk

open Relays

/-- Two readings end alike, and the recorders have heard the same. -/
def HeardAlike (x x' : Except Fault Unit × Session Listener (Attendance Listener Desk)) : Prop :=
  x'.1 = x.1 ∧ x'.2.world.own.heard = x.2.world.own.heard

variable {shape : Shape} {label : String} {n : Nat}
  {x x' : Except Fault Unit × Session Listener (Attendance Listener Desk)}

theorem heardAlike_iff_of_accords (hres : x'.1 = x.1) (h : Accords shape label n x.2 x'.2) : HeardAlike x x' ↔
      ∀ e, (outermost shape label n, e) ∈ x'.2.world.calls → e.verb ≠ .array ∧ e.verb ≠ .catchingAll := by
  rw [HeardAlike, h.heard_eq]
  exact ⟨fun hall e he => ⟨(h.told e he).2, hall.2 e he⟩, fun hall => ⟨hres, fun e he => (hall e he).2⟩⟩

theorem not_heardAlike_of_overrun (h : Overrun shape label n x.2.world.own x'.2.world) : ¬ HeardAlike x x' := by
  obtain ⟨-, -, later, name, values, before, hnotes, hheard⟩ := h
  rintro ⟨-, heq⟩
  -- the root has noted one event more than the relays let through
  have hlen := congrArg length (hheard.symm.trans heq)
  rw [heard, hnotes, filter_append, filter_cons_of_pos rfl] at hlen
  simp only [length_append, length_cons] at hlen
  omega

/-- Relays are transparent exactly as long as they are told neither a list of values nor a handler of all errors.
For every source, every choice of options and any number of relays in front of a recorder: the reading ends alike
and all recorders hear the same, if and only if the relays are told neither. So relays of classes and of fields are
transparent. Relays of methods make no difference to how the reading ends, and the root hears each handler of all
errors as a handler of one type. Relays of annotations end the reading at the first list of values that they are
told, after the recorders have heard what they hear without relays up to there. -/
theorem visit_relayed_iff (copied : Bool) (o : Options) (shape : Shape) (label : String) (n : Nat) (input : Input)
    (q : Source) (k : Cursor) (st : List (Slot Listener)) (d : Desk) (hst : ∀ slot ∈ st, Recorded slot) :
    let relays := Listener.behind shape (n + 1) (.recorder shape label)
    let reader := (audience copied).reader o
    let direct := outcome (reader.visit input (some (.recorder shape label))) ⟨q, k, st, ⟨d, []⟩⟩
    let relayed := outcome (reader.visit input (some relays)) ⟨q, k, st, ⟨d, []⟩⟩
    (HeardAlike direct relayed ↔ ∀ e, (relays, e) ∈ relayed.2.world.calls → e.verb ≠ .array ∧ e.verb ≠ .catchingAll) ∧
    (shape = .classDef ∨ shape = .field → HeardAlike direct relayed) ∧
    (shape = .method → relayed.1 = direct.1 ∧
      Forall₂ (Note.Relayed label) direct.2.world.own.notes relayed.2.world.own.notes) ∧
    (shape = .annot → HeardAlike direct relayed ∨ relayed.1 = .error .endless ∧
      ∃ later name values before, direct.2.world.own.notes = later ++ .heard label (.array name values) none :: before ∧
        relayed.2.world.own.heard = before.filter Note.isHeard) := by
  intro relays reader direct relayed
  have hagree := (shares.visit (attends copied o) (audience copied).host_private (audience copied).host_private input
    (Listener.Relays.root : Listener.Relays shape label n _ _)).2 _ _ (accords_start hst q k d)
  rcases hagree with ⟨hmatch, haccord⟩ | ⟨hexit, -, hover⟩
  · have hres : relayed.1 = direct.1 := hmatch.eq.symm
    have hiff := heardAlike_iff_of_accords hres haccord
    refine ⟨hiff, fun hshape => hiff.mpr fun e he => ⟨(haccord.told e he).2, fun hall => ?_⟩,
      fun _ => ⟨hres, haccord.notes⟩, fun hshape => .inl (hiff.mpr fun e he => ⟨(haccord.told e he).2, fun hall => ?_⟩)⟩
    all_goals
      have hears := (haccord.told e he).1
      rw [hall] at hears
    · rcases hshape with rfl | rfl <;> cases hears
    · subst hshape
      cases hears
  · have hne : ¬ HeardAlike direct relayed := not_heardAlike_of_overrun hover
    obtain ⟨hshape, ⟨e, he, harray⟩, hnotes⟩ := hover
    refine ⟨⟨fun h => absurd h hne, fun h => absurd harray (h e he).1⟩, fun h => ?_, fun h => ?_,
      fun _ => .inr ⟨hexit, hnotes⟩⟩
    · rcases h with rfl | rfl <;> cases hshape
    · subst h
      cases hshape

/-- A class with a method is recorded alike through three relays, above a field that an earlier reading left. -/
theorem visit_relayed_iff_class : (∀ slot ∈ [Slot.node (Listener.recorder .field "field#7")], Recorded slot) ∧
    HeardAlike
      (outcome (((audience true).reader .standard).visit (.text ".class public LA;\n.method a()V\n.end method\n")
        (some (.recorder .classDef "a"))) ⟨⟨[]⟩, .start, [.node (.recorder .field "field#7")], ⟨.empty [], []⟩⟩)
      (outcome (((audience true).reader .standard).visit (.text ".class public LA;\n.method a()V\n.end method\n")
        (some (.behind .classDef 3 (.recorder .classDef "a"))))
        ⟨⟨[]⟩, .start, [.node (.recorder .field "field#7")], ⟨.empty [], []⟩⟩) := by
  have hst : ∀ slot ∈ [Slot.node (Listener.recorder .field "field#7")], Recorded slot := by
    intro slot hslot n hn
    obtain rfl := mem_singleton.mp hslot
    cases hn
    exact ⟨_, _, rfl⟩
  exact ⟨hst, (visit_relayed_iff true .standard .classDef "a" 2 _ _ _ _ _ hst).2.1 (.inl rfl)⟩

/-- One relay in front of the recorder of an annotation: the recorder alone notes a list of values and the end, and
with the relay the reading fails with nothing noted. -/
theorem relayed_list_endless :
    let alone := outcome (((audience false).reader ⟨true, false, true, "strict"⟩).visit
      (.text "a = \x7b 1, 2 \x7d\n") (some (.recorder .annot "annotation#0"))) ⟨⟨[]⟩, .start, [], ⟨.empty [], []⟩⟩
    let relayed := outcome (((audience false).reader ⟨true, false, true, "strict"⟩).visit
      (.text "a = \x7b 1, 2 \x7d\n") (some (.behind .annot 1 (.recorder .annot "annotation#0"))))
        ⟨⟨[]⟩, .start, [], ⟨.empty [], []⟩⟩
    alone.1.toOption = some () ∧ (alone.2.world.own.notes.reverse.map fun
        | .heard _ e _ => e.verb
        | .copied _ _ => .comment) = [.array, .close] ∧
      (match relayed.1 with
        | .ok () => none
        | .error f => some f) = some .endless ∧ relayed.2.world.own.notes.length = 0 := by
  decide +kernel

end Desk

end Dalvik
