import Dalvik.Proofs.Recorders
import Dalvik.Proofs.Runs

/-!
# Lines that are left unread

Reading a source is meant to go on to its last line or to report a fault. It does not always: the loop
over the lines takes a fault that concerns a value for the end of the source. The main statement,
`Desk.visit_leaves_lines_iff`, says exactly when a reader returns and leaves lines behind: a line in the
body raised one of four faults (`Fault.concernsValue`) while a construct was open that could still be
told its end. All other faults are reported, and the end of the source is never met too early.
-/

namespace Dalvik

/-- The faults of reading that concern a value: a number that is none, a text with the wrong number of
parts, a literal that is none, octets that are no text. -/
def Fault.concernsValue : Fault → Bool
  | numeral | partCount | noLiteral _ | undecodable => true
  | _ => false

theorem Fault.endsReading_of_ofReading {f : Fault} (hf : f.ofReading = true) : f.endsReading = f.concernsValue := by
  cases f <;> first | rfl | cases hf

namespace Reader

variable {ν σ : Type} (r : Reader ν σ) {input : Input}

/-- What comes before the first line of the body: the input is looked at, the root becomes the outermost
construct, and the header of the class is read. -/
def begin (input : Input) (root : ν) : Read ν σ Unit := do
  unless input.isPresent do throw .missingSource
  let source ← Read.attempt input.source
  unless r.options.knownPolicy do throw (.unknownPolicy r.options.policy)
  modify fun s => { s with source := source }
  Read.push (.node root)
  unless r.options.snippet do r.openClass

theorem visit_eq (input : Input) (root : ν) :
    r.visit input (some root) = r.begin input root >>= fun _ => r.readBody := by
  cases hp : input.isPresent <;> cases hk : r.options.knownPolicy <;> cases hs : r.options.snippet <;>
    simp [visit, begin, hp, hk, hs]

section Begin

variable {input : Input} {root : ν} {lines src : Source} {k : Cursor} {st : Slots ν} {d : σ}

/-- With an input that has lines, and with a known policy, beginning is reading the header with the root
on the stack. -/
theorem outcome_begin (hp : input.isPresent = true) (hs : input.source = .ok lines)
    (hk : r.options.knownPolicy = true) :
    outcome (r.begin input root) ⟨src, k, st, d⟩ =
      outcome (unless r.options.snippet do r.openClass) ⟨lines, k, .node root :: st, d⟩ := by
  simp only [begin, hp, hs, hk]
  rfl

theorem begin_ok {s : Session ν σ} (e : outcome (r.begin input root) ⟨src, k, st, d⟩ = (.ok (), s)) :
    input.isPresent = true ∧ (∃ lines, input.source = .ok lines) ∧ r.options.knownPolicy = true := by
  unfold begin at e
  cases hp : input.isPresent with
  | false =>
    simp only [hp] at e
    cases e
  | true =>
    cases hs : input.source with
    | error f =>
      simp only [hp, hs] at e
      cases e
    | ok lines =>
      cases hk : r.options.knownPolicy with
      | false =>
        simp only [hp, hs, hk] at e
        cases e
      | true => exact ⟨rfl, ⟨lines, rfl⟩, rfl⟩

end Begin

theorem outcome_visit {lines : Source} (hp : input.isPresent = true)
    (hs : input.source = .ok lines) (hk : r.options.knownPolicy = true) (root : ν) (src : Source)
    (k : Cursor) (st : Slots ν) (w : σ) :
    outcome (r.visit input (some root)) ⟨src, k, st, w⟩ =
      outcome ((unless r.options.snippet do r.openClass) >>= fun _ => r.readBody) ⟨lines, k, .node root :: st, w⟩ := by
  rw [visit_eq, outcome_bind, outcome_begin r hp hs hk, ← outcome_bind]

theorem outcome_visit_refused (h : ¬ (input.isPresent = true ∧
    (∃ lines, input.source = .ok lines) ∧ r.options.knownPolicy = true)) (root : ν) :
    ∃ f, ∀ s, outcome (r.visit input (some root)) s = (.error f, s) := by
  cases hp : input.isPresent with
  | false => exact ⟨.missingSource, fun s => by simp only [visit, hp]; rfl⟩
  | true =>
    cases hs : input.source with
    | error f => exact ⟨f, fun s => by simp only [visit, hp, hs]; rfl⟩
    | ok lines =>
      cases hk : r.options.knownPolicy with
      | false => exact ⟨.unknownPolicy r.options.policy, fun s => by simp only [visit, hp, hs, hk]; rfl⟩
      | true => exact absurd ⟨hp, ⟨lines, hs⟩, hk⟩ h

theorem Governs.holds_begin {r : Reader ν σ} {c : Contract (Session ν σ)} {fit : ν → Prop}
    (h : r.Governs c fit) {root : ν} {src : Source} {k : Cursor} {st : Slots ν}
    {d : σ} {s : Session ν σ} (hroot : ∀ lines, c.holds ⟨lines, k, .node root :: st, d⟩)
    (e : outcome (r.begin input root) ⟨src, k, st, d⟩ = (.ok (), s)) : c.holds s := by
  obtain ⟨hp, ⟨lines, hl⟩, hk⟩ := r.begin_ok e
  rw [r.outcome_begin hp hl hk] at e
  have hkept : c.Kept (unless r.options.snippet do r.openClass) :=
    Contract.kept_ite (fun _ => Contract.kept_pure _) fun _ => h.openClass
  exact (hkept _ (hroot lines)).holds_of e

end Reader

namespace Desk

/-- A construct that is recorded, or that nobody listens to, can be told its end unless nothing at all is
known of it; no line of the source is touched. -/
theorem tell_close_iff (o : Options) (copied : Bool) {u : Session Listener Desk}
    (hu : contract.holds u) (lines : Source) :
    (∃ t, outcome ((recording o copied).tell .close) u = (.ok (), t) ∧ t.source = lines) ↔
      u.source = lines ∧ ∃ slot st, u.stack = slot :: st ∧ slot ≠ .absent := by
  obtain ⟨src, k, st, d⟩ := u
  cases st with
  | nil =>
    have hnil : outcome ((recording o copied).tell .close) ⟨src, k, [], d⟩ = (.error .noElement, ⟨src, k, [], d⟩) := rfl
    simp [hnil]
  | cons slot st =>
    cases slot with
    | absent =>
      have habsent : outcome ((recording o copied).tell .close) ⟨src, k, .absent :: st, d⟩
          = (.error .noOperation, ⟨src, k, .absent :: st, d⟩) := rfl
      simp [habsent]
    | blank shape =>
      have hblank : outcome ((recording o copied).tell .close) ⟨src, k, .blank shape :: st, d⟩
          = (.ok (), ⟨src, k, .blank shape :: st, d⟩) := by
        cases shape <;> rfl
      simp [hblank]
    | node n =>
      obtain ⟨shape, label, rfl⟩ := hu (.node n) List.mem_cons_self n rfl
      have hnode : outcome ((recording o copied).tell .close) ⟨src, k, taped shape label st, d⟩
          = (.ok (), ⟨src, k, taped shape label st, d.hear label .close⟩) := by
        cases shape <;> rfl
      simp [hnode]

/-- A reader returns with lines left unread exactly where, behind the header, a line of the body raised a
fault that concerns a value while the innermost construct could be told its end; what is left are the
lines behind that one. -/
theorem visit_leaves_lines_iff (o : Options) (copied : Bool) (input : Input) (shape : Shape)
    (label : String) (src : Source) (k : Cursor) (d : Desk) (l : Option String)
    (rest : List (Option String)) :
    (∃ t, outcome ((recording o copied).visit input (some (.recorder shape label))) ⟨src, k, [], d⟩
        = (.ok (), t) ∧ t.source.lines = l :: rest) ↔
      ∃ s f u, outcome ((recording o copied).begin input (.recorder shape label)) ⟨src, k, [], d⟩
          = (.ok (), s) ∧ (recording o copied).Stops s f u ∧ f.concernsValue = true ∧
        u.source.lines = l :: rest ∧ ∃ slot st, u.stack = slot :: st ∧ slot ≠ .absent := by
  have h := governs o copied
  have hroot : ∀ lines, contract.holds ⟨lines, k, [.node (.recorder shape label)], d⟩ := by
    intro lines slot hslot n hn
    obtain rfl := List.mem_singleton.mp hslot
    cases hn
    exact ⟨shape, label, rfl⟩
  rw [Reader.visit_eq]
  constructor
  · rintro ⟨t, ht, hlines⟩
    obtain ⟨_, s, hbegin, hbody⟩ := outcome_bind_eq_ok _ ht
    have hs := h.holds_begin hroot hbegin
    obtain ⟨f, u, hstop⟩ := h.exists_stops hs
    obtain ⟨hu, hf⟩ := h.stops_admits hs hstop
    rw [h.outcome_readBody hs hstop] at hbody
    split at hbody
    · rename_i hends
      obtain ⟨hsrc, hslot⟩ := (tell_close_iff o copied hu t.source).mp ⟨t, hbody, rfl⟩
      have hul : u.source.lines = l :: rest := by rw [hsrc, hlines]
      rcases hf with hf | ⟨-, hnil⟩
      · exact ⟨s, f, u, hbegin, hstop, by rw [← Fault.endsReading_of_ofReading hf, hends], hul, hslot⟩
      · simp [hul] at hnil
    · split at hbody <;> cases hbody
  · rintro ⟨s, f, u, hbegin, hstop, hf, hlines, hslot⟩
    have hs := h.holds_begin hroot hbegin
    obtain ⟨hu, -⟩ := h.stops_admits hs hstop
    have hends : f.endsReading = true := by
      cases f <;> first | rfl | cases hf
    obtain ⟨t, ht, hsrc⟩ := (tell_close_iff o copied hu u.source).mpr ⟨rfl, hslot⟩
    refine ⟨t, ?_, by rw [hsrc, hlines]⟩
    rw [bind_ok _ hbegin, h.outcome_readBody hs hstop, if_pos hends]
    exact ht

/-- A number of registers that is no number ends the reading without a report: the end of the method is
left unread. -/
theorem visit_leaves_end_of_method :
    let end_ := outcome ((recording .standard false).visit
      (.text ".class public LFoo;\n.method public a()V\n.locals x\n.end method\n")
      (some (.recorder .classDef "class#0"))) ⟨⟨[]⟩, .start, [], .empty []⟩
    end_.1.toOption = some () ∧ end_.2.source.lines = [some ".end method\n"] := by
  decide +kernel

end Desk

end Dalvik
