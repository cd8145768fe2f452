import Dalvik.Proofs.Forests

/-!
# Workrooms

A workroom has a class writer and all writers that were handed out since, by it and by one another. Writers are
numbered in the order in which they were handed out, and the sheet of a writer has its number. Any of them may be
called at any time (`Workroom.call`), and the code of the class may be read at any time (`Workroom.read`).

A call settles the sheet of the writer or leaves it, and then the sheet alone decides what happens: its lines are
rewritten, or a construct is opened on it (`Sheet.inscribe`, `Workroom.call_eq`). Whatever is called and read, and
whether the calls succeed or not, the sheets stay a forest: each waits on one other sheet at most, and none below
itself (`Workroom.Tidy`).
-/

namespace Dalvik

open Listing Listener List

theorem Sheets.update_congr {ss : Sheets} {i : Nat} {f g : Sheet → Sheet} (h : f (ss.sheet i) = g (ss.sheet i)) :
    ss.update i f = ss.update i g := by
  refine Array.ext_getElem? fun k => ?_
  rw [update, update, Array.getElem?_modify, Array.getElem?_modify]
  split
  · rename_i hik
    subst hik
    rcases hk : ss[i]? with _ | s
    · rfl
    · have : ss.sheet i = s := by simp [sheet, hk]
      rw [this] at h
      simp [h]
  · rfl

/-! ### What a writer does -/

/-- What becomes of a sheet when its writer is called. -/
inductive Inscription where
  | rewritten (s : Sheet)
  | opened (h : Heading)

namespace Sheet

/-- The sheet with a statement behind its lines. -/
def put (s : Sheet) (st : Statement) : Sheet :=
  s.addAt (s.indent + st.deeper) st.text st.stop

/-- What becomes of the sheet of a writer when it is called with a heading or a statement. -/
def inscribeText (s : Sheet) (shape : Shape) (e : Event) : Except Fault Inscription :=
  match heading shape s.indent e with
  | .error f => .error f
  | .ok (some h) => .ok (.opened h)
  | .ok none =>
    match statement shape s.indent e with
    | .error f => .error f
    | .ok st? => .ok (.rewritten (st?.elim s s.put))

/-- What becomes of the sheet of a writer when the writer is called. -/
def inscribe (s : Sheet) (shape : Shape) (closing : Keyword) : Event → Except Fault Inscription
  | .trailing text =>
    match s.addComment text.plain with
    | .error f => .error f
    | .ok t => .ok (.rewritten t)
  | .close => .ok (.rewritten ((closingStatement shape closing).elim s s.put))
  | e => s.inscribeText shape e

end Sheet

/-- The text that an event is written as, with what ends it. -/
def Listing.wording (shape : Shape) (closing : Keyword) (indent : Int) : Event → String
  | .close => (closingStatement shape closing).elim "" fun st => st.text ++ st.stop
  | e =>
    match heading shape indent e, statement shape indent e with
    | .ok (some h), _ => h.text
    | .ok none, .ok (some st) => st.text ++ st.stop
    | _, _ => ""

namespace Sheet

variable {s s' : Sheet} {shape : Shape} {closing : Keyword} {e : Event}

theorem addComment_eq_ok {comment : String} (h : s.addComment comment = .ok s') :
    ∃ lines, s' = { s with lines := lines } := by
  unfold addComment at h
  split at h
  · cases h
  · split at h
    · cases h
    · cases h
      exact ⟨_, rfl⟩

theorem elim_put_eq (s : Sheet) (st? : Option Statement) : st?.elim s s.put = { s with
      lines := s.lines ++ (st?.map fun st => margin (s.indent + st.deeper) ++ (st.text ++ st.stop)).toList } := by
  cases st? <;> simp [put, addAt, String.append_assoc]

/-- Whatever is inscribed on a sheet is a comment behind its last line, a statement, or the heading of a
construct. -/
theorem inscribe_cases {r : Inscription} (h : s.inscribe shape closing e = .ok r) :
    (∃ text lines, e = .trailing text ∧ r = .rewritten { s with lines := lines }) ∨
      (∃ st? : Option Statement, r = .rewritten (st?.elim s s.put) ∧
        wording shape closing s.indent e = st?.elim "" fun st => st.text ++ st.stop) ∨
      ∃ h, r = .opened h ∧ heading shape s.indent e = .ok (some h) ∧
        wording shape closing s.indent e = h.text := by
  unfold inscribe at h
  split at h
  · rename_i text
    split at h
    · cases h
    · rename_i t ht
      obtain ⟨lines, rfl⟩ := addComment_eq_ok ht
      cases h
      exact .inl ⟨text, lines, rfl, rfl⟩
  · cases h
    exact .inr (.inl ⟨_, rfl, rfl⟩)
  · rename_i hclose
    have hwording : wording shape closing s.indent e = _ := wording.eq_2 shape closing s.indent e hclose
    unfold inscribeText at h
    split at h
    · cases h
    · rename_i x hheading
      cases h
      exact .inr (.inr ⟨x, rfl, hheading, by rw [hwording, hheading]⟩)
    · rename_i hheading
      split at h
      · cases h
      · rename_i st? hstatement
        cases h
        refine .inr (.inl ⟨st?, rfl, ?_⟩)
        rw [hwording, hheading, hstatement]
        cases st? <;> rfl

theorem inserts_of_inscribe (h : s.inscribe shape closing e = .ok (.rewritten s')) : s'.inserts = s.inserts := by
  rcases inscribe_cases h with ⟨_, lines, -, heq⟩ | ⟨st?, heq, -⟩ | ⟨_, heq, -⟩
  · cases heq
    rfl
  · cases heq
    rw [elim_put_eq]
  · cases heq

end Sheet

namespace Desk

/-- The desk after an inscription on a sheet, and the writer of the construct that is opened. -/
def inscribed (d : Desk) (i : Nat) : Except Fault Inscription → Except Fault Listener × Desk
  | .error f => (.error f, d)
  | .ok (.rewritten s) => (.ok .nobody, { d with sheets := d.sheets.update i fun _ => s })
  | .ok (.opened h) =>
    (.ok (.writer h.shape d.sheets.size h.closing .nobody), { d with sheets := d.sheets.openOn i h })

open Sheets

variable {shape : Shape} {i : Nat} (closing : Keyword) {e : Event} {d : Desk}

theorem put_eq (d : Desk) (i : Nat) (st : Statement) :
    d.put i st = { d with sheets := d.sheets.update i fun _ => (d.sheets.sheet i).put st } := by
  have hsame : (d.sheets.update i fun s => s.addAt ((d.sheets.sheet i).indent + st.deeper) st.text st.stop)
      = d.sheets.update i fun _ => (d.sheets.sheet i).put st := update_congr rfl
  rw [put, hsame]

theorem outcome_write : outcome (write shape i closing .nobody e) d
    = d.inscribed i ((d.sheets.sheet i).inscribe shape closing e) := by
  -- where nothing is written the sheet stays as it is
  have hnone : (Except.ok nobody, d) = d.inscribed i (.ok (.rewritten (d.sheets.sheet i))) := by
    rw [inscribed, update_eq_self rfl]
  unfold Sheet.inscribe
  split
  · rename_i text
    have htrailing : outcome (write shape i closing .nobody (.trailing text)) d = outcome (do
            let t ← attempt ((d.sheets.sheet i).addComment text.plain)
            updateSheet i fun _ => t
            pure .nobody) d := rfl
    rw [htrailing, outcome_bind]
    cases (d.sheets.sheet i).addComment text.plain <;> rfl
  · rw [outcome_write_close]
    cases closingStatement shape closing with
    | none => exact hnone
    | some st => exact congrArg (Prod.mk _) (put_eq d i st)
  · have hother : ¬(e.verb = .close ∨ e.verb = .trailing) := by
      cases e <;> simp_all [Event.verb]
    rw [write_eq closing hother, bind_ok _ (outcome_sheet i d)]
    rw [outcome_bind, outcome_attempt, Sheet.inscribeText]
    rcases heading shape (d.sheets.sheet i).indent e with f | _ | h
    · rfl
    · dsimp only
      rcases statement shape (d.sheets.sheet i).indent e with f | _ | st
      · rfl
      · exact hnone
      · exact congrArg (Prod.mk _) (put_eq d i st)
    · rfl

theorem outcome_visit : outcome ((writer shape i closing .nobody).visit e) d = if shape.hears e.verb then
        (d.readied shape i e).inscribed i (((d.readied shape i e).sheets.sheet i).inscribe shape closing e)
      else (.error .noOperation, d) := by
  split
  · rename_i he
    rw [outcome_visit_eq closing he, outcome_bind, outcome_write]
    rcases hr : ((d.readied shape i e).sheets.sheet i).inscribe shape closing e with f | s | h
    · rfl
    · simp [inscribed]
    · -- a list of values opens nothing
      have hverb : e.verb ≠ .array := by
        intro hverb
        rcases Sheet.inscribe_cases hr with ⟨_, _, -, h⟩ | ⟨_, h, -⟩ | ⟨_, -, h, -⟩
        · cases h
        · cases h
        · cases e <;> simp only [Event.verb, reduceCtorEq] at hverb
          cases h
      simp [inscribed, hverb]
  · rename_i he
    have hears : (writer shape i closing .nobody).hears e.verb = false := by
      simpa [hears, shape?] using he
    rw [visit, if_neg (by rw [hears]; exact Bool.false_ne_true)]
    rfl

end Desk

/-! ### Calls and readings -/

/-- A class writer with all writers that were handed out since. -/
structure Workroom where
  desk : Desk
  writers : List Listener

/-- What can be done in a workroom. -/
inductive Step where
  | call (k : Nat) (e : Event)
  | read

namespace Workroom

open Sheets

/-- A workroom with a new class writer. -/
def new (indent : Int) : Workroom :=
  match outcome (newWriter .classDef indent .nobody) (Desk.empty []) with
  | (.ok l, d) => ⟨d, [l]⟩
  | (.error _, d) => ⟨d, []⟩

/-- Calls a writer; the result is the number of the writer that it hands out, if any. -/
def call (w : Workroom) (k : Nat) (e : Event) : Except Fault (Option Nat) × Workroom :=
  match w.writers[k]? with
  | none => (.error .noElement, w)
  | some l =>
    match outcome (l.visit e) w.desk with
    | (.error f, d) => (.error f, { w with desk := d })
    | (.ok .nobody, d) => (.ok none, { w with desk := d })
    | (.ok l', d) => (.ok (some w.writers.length), ⟨d, w.writers ++ [l']⟩)

/-- Reads the code of the class. -/
def read (w : Workroom) : Except Fault String × Workroom :=
  let (res, d) := outcome (Desk.code 0 true) w.desk
  (res, { w with desk := d })

/-- The workroom after a step, whether it succeeds or not. -/
def after (w : Workroom) : Step → Workroom
  | .call k e => (w.call k e).2
  | .read => w.read.2

/-- The workroom after steps. -/
def run (w : Workroom) (steps : List Step) : Workroom :=
  steps.foldl after w

/-- The sheets of a workroom. -/
abbrev sheets (w : Workroom) : Sheets :=
  w.desk.sheets

/-- The workroom with other sheets. -/
def lay (w : Workroom) (ss : Sheets) : Workroom :=
  { w with desk := { w.desk with sheets := ss } }

/-- The sheets on which a writer writes an event: its own is settled first where it has to be. -/
def readied (w : Workroom) (shape : Shape) (k : Nat) (e : Event) : Sheets :=
  if settles shape e.verb then w.sheets.settle k else w.sheets

/-- What an inscription on a sheet leads to. -/
def inscribed (w : Workroom) (k : Nat) : Except Fault Inscription → Except Fault (Option Nat) × Workroom
  | .error f => (.error f, w)
  | .ok (.rewritten s) => (.ok none, w.lay (w.sheets.update k fun _ => s))
  | .ok (.opened h) => (.ok (some w.writers.length), ⟨{ w.desk with sheets := w.sheets.openOn k h },
        w.writers ++ [.writer h.shape w.sheets.size h.closing .nobody]⟩)

variable {w : Workroom} {shape : Shape} {k : Nat} {closing : Keyword}

theorem after_read (w : Workroom) : w.after .read = w.lay (w.sheets.settle 0) := rfl

theorem after_call (w : Workroom) (k : Nat) (e : Event) : w.after (.call k e) = (w.call k e).2 := rfl

theorem run_cons (w : Workroom) (step : Step) (more : List Step) : w.run (step :: more) = (w.after step).run more := rfl

theorem call_eq (hk : w.writers[k]? = some (.writer shape k closing .nobody)) (e : Event) :
    w.call k e = if shape.hears e.verb then
        (w.lay (w.readied shape k e)).inscribed k (((w.readied shape k e).sheet k).inscribe shape closing e)
      else (.error .noOperation, w) := by
  have hreadied : w.desk.readied shape k e = { w.desk with sheets := w.readied shape k e } := by
    unfold Desk.readied readied
    split <;> rfl
  rw [call, hk]
  dsimp only
  rw [Desk.outcome_visit, hreadied]
  by_cases hears : shape.hears e.verb = true
  · rw [if_pos hears, if_pos hears]
    rcases ((w.readied shape k e).sheet k).inscribe shape closing e with f | s | h <;> rfl
  · rw [if_neg hears, if_neg hears]

/-! ### The forest of a workroom -/

end Workroom

namespace Sheets

open Forest

/-- Each sheet waits on one other sheet at most, and none below itself; the first sheet waits nowhere. -/
def Planted (ss : Sheets) : Prop :=
  ∃ f xs, Forest.Waits ss f xs ∧ f.sheets.Perm (range ss.size) ∧ f.sheets.head? = some 0

variable {ss : Sheets} {k : Nat}

namespace Planted

variable (h : ss.Planted)

include h

theorem under (hk : k < ss.size) : ∃ g, Forest.Waits ss g (ss.sheet k).inserts ∧
    (k :: g.sheets).Nodup ∧ ∀ j ∈ k :: g.sheets, j < ss.size := by
  obtain ⟨f, xs, hwaits, hperm, -⟩ := h
  have hnodup : f.sheets.Nodup := hperm.nodup_iff.mpr nodup_range
  have hmem : k ∈ f.sheets := hperm.mem_iff.mpr (mem_range.mpr hk)
  refine ⟨f.under k, hwaits.under hmem, nodup_under hnodup hmem, fun j hj => ?_⟩
  rcases mem_cons.mp hj with rfl | hj
  · exact hk
  · exact mem_range.mp (hperm.mem_iff.mp ((f.sheets_under_sublist k).mem hj))

theorem settle (hk : k < ss.size) : Planted (ss.settle k) := by
  obtain ⟨f, xs, hwaits, hperm, hhead⟩ := h
  have hnodup : f.sheets.Nodup := hperm.nodup_iff.mpr nodup_range
  have hmem : k ∈ f.sheets := hperm.mem_iff.mpr (mem_range.mpr hk)
  have hlt : ∀ j ∈ f.sheets, j < ss.size := fun j hj => mem_range.mp (hperm.mem_iff.mp hj)
  refine ⟨_, _, hwaits.detached hnodup hlt hmem, ?_, ?_⟩
  · rw [(settle_under hwaits hnodup hlt hmem).1]
    exact (sheets_detached_perm hnodup hmem).trans hperm
  · rw [sheets_append, head?_append, head?_sheets_graft, hhead]
    rfl

theorem rewrite {s : Sheet} (hs : s.inserts = (ss.sheet k).inserts) : Planted (ss.update k fun _ => s) := by
  obtain ⟨f, xs, hwaits, hperm, hhead⟩ := h
  refine ⟨f, xs, hwaits.congr fun j hj => ?_, by rw [size_update]; exact hperm, hhead⟩
  by_cases hjk : j = k
  · subst hjk
    rw [sheet_update_self (mem_range.mp (hperm.mem_iff.mp hj)), hs]
  · rw [sheet_update_of_ne hjk]

theorem openOn (hk : k < ss.size) (x : Heading) : Planted (ss.openOn k x) := by
  obtain ⟨f, xs, hwaits, hperm, hhead⟩ := h
  have hnodup : f.sheets.Nodup := hperm.nodup_iff.mpr nodup_range
  have hmem : k ∈ f.sheets := hperm.mem_iff.mpr (mem_range.mpr hk)
  have hlt : ∀ j ∈ f.sheets, j < ss.size := fun j hj => mem_range.mp (hperm.mem_iff.mp hj)
  refine ⟨_, xs, hwaits.opened hnodup hlt hmem x, ?_, (f.head?_sheets_graft k _).trans hhead⟩
  rw [size_openOn, range_succ]
  exact (sheets_opened_perm hnodup hmem _ _).trans (hperm.append_right [ss.size])

end Planted

end Sheets

namespace Workroom

open Sheets

/-- A workroom in order: every writer has the sheet of its number, and the sheets are a forest. -/
structure Tidy (w : Workroom) : Prop where
  root : w.writers[0]? = some (.writer .classDef 0 .classDef .nobody)
  length_eq : w.writers.length = w.sheets.size
  writer : ∀ k < w.sheets.size, ∃ shape closing, w.writers[k]? = some (.writer shape k closing .nobody)
  planted : w.sheets.Planted

theorem tidy_new (indent : Int) : (new indent).Tidy where
  root := rfl
  length_eq := rfl
  writer k hk := by
    obtain rfl : k = 0 := Nat.lt_one_iff.mp hk
    exact ⟨.classDef, .classDef, rfl⟩
  planted := ⟨.cons ⟨.classDef, false, some 0⟩ 0 .nil .nil, [⟨.classDef, false, some 0⟩],
    ⟨[], rfl, rfl, rfl, rfl⟩, .refl _, rfl⟩

namespace Tidy

variable {w : Workroom} {k : Nat}

variable (h : w.Tidy)

include h

theorem pos : 0 < w.sheets.size := by
  obtain ⟨hlt, -⟩ := List.getElem?_eq_some_iff.mp h.root
  exact h.length_eq ▸ hlt

theorem lay {ss : Sheets} (hsize : ss.size = w.sheets.size) (hplanted : ss.Planted) : (w.lay ss).Tidy where
  root := h.root
  length_eq := h.length_eq.trans hsize.symm
  writer k hk := h.writer k (hsize ▸ hk)
  planted := hplanted

theorem size_settle (hk : k < w.sheets.size) : (w.sheets.settle k).size = w.sheets.size := by
  obtain ⟨g, hwaits, hnodup, hlt⟩ := h.planted.under hk
  exact (Forest.settle hwaits hnodup hlt).1

theorem settle (hk : k < w.sheets.size) : (w.lay (w.sheets.settle k)).Tidy :=
  h.lay (h.size_settle hk) (h.planted.settle hk)

theorem size_readied (shape : Shape) (hk : k < w.sheets.size) (e : Event) :
    (w.readied shape k e).size = w.sheets.size := by
  unfold Workroom.readied
  split
  · exact h.size_settle hk
  · rfl

theorem readied (shape : Shape) (hk : k < w.sheets.size) (e : Event) : (w.lay (w.readied shape k e)).Tidy := by
  unfold Workroom.readied
  split
  · exact h.settle hk
  · exact h

theorem inscribed (hk : k < w.sheets.size) {shape : Shape} {closing : Keyword} {e : Event} :
    (w.inscribed k ((w.sheets.sheet k).inscribe shape closing e)).2.Tidy := by
  rcases hr : (w.sheets.sheet k).inscribe shape closing e with f | s | x
  · exact h
  · exact h.lay (size_update _ _ _) (h.planted.rewrite (Sheet.inserts_of_inscribe hr))
  · have hsize : (w.sheets.openOn k x).size = w.sheets.size + 1 := size_openOn x
    refine ⟨?_, ?_, fun j hj => ?_, h.planted.openOn hk x⟩
    · exact (getElem?_append_left (h.length_eq ▸ h.pos)).trans h.root
    · exact (length_append.trans (congrArg (· + 1) h.length_eq)).trans hsize.symm
    · rcases Nat.lt_succ_iff_lt_or_eq.mp (Nat.lt_of_lt_of_eq hj hsize) with hj | rfl
      · obtain ⟨shape, closing, hwriter⟩ := h.writer j hj
        exact ⟨shape, closing, (getElem?_append_left (h.length_eq ▸ hj)).trans hwriter⟩
      · refine ⟨x.shape, x.closing, ?_⟩
        show (w.writers ++ [Listener.writer x.shape w.sheets.size x.closing .nobody])[w.sheets.size]? = _
        rw [← h.length_eq, getElem?_concat_length]

theorem call (k : Nat) (e : Event) : (w.call k e).2.Tidy := by
  by_cases hk : k < w.sheets.size
  · obtain ⟨shape, closing, hwriter⟩ := h.writer k hk
    rw [call_eq hwriter]
    split
    · have hready := h.readied shape hk e
      exact hready.inscribed (Nat.lt_of_lt_of_eq hk (h.size_readied shape hk e).symm)
    · exact h
  · have hnone : w.writers[k]? = none := getElem?_eq_none (h.length_eq ▸ Nat.le_of_not_lt hk)
    rw [Workroom.call, hnone]
    exact h

theorem after : ∀ step, (w.after step).Tidy
  | .call k e => h.call k e
  | .read => h.settle h.pos

theorem run (steps : List Step) : (w.run steps).Tidy := by
  induction steps generalizing w with
  | nil => exact h
  | cons step steps ih => exact ih (h.after step)

end Tidy

end Workroom

end Dalvik
