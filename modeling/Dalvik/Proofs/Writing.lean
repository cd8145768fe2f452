import Dalvik.Proofs.Scripts

/-!
# What writers write

The constructs inside a construct are written on sheets of their own, and wait until the sheet of the
construct is settled. `Sheets.Holds` says what the lines of a sheet will then be, with the constructs that
still wait as blocks behind the lines that are there. Settling a sheet keeps this and empties the list of
those that wait (`Sheets.Holds.settle`), and no step changes a sheet that was started earlier
(`Sheets.Beyond`). A writer that receives the calls of a script therefore ends with the lines of the script on
its sheet (`Script.Writable.writes`), and these make the listing of a class (`Script.Writable.outcome_write`).
-/

namespace Dalvik

open Listing Listener List Sheet Desk

variable {ss₁ : Sheets} {xs : List Insert} {sc : Script} {shape : Shape} {waits : Bool}

namespace Sheets

variable {ss : Sheets} {i j : Nat} {f : Sheet → Sheet}

/-! ### Single sheets -/

@[simp] theorem size_update (ss : Sheets) (i : Nat) (f : Sheet → Sheet) : (ss.update i f).size = ss.size := by
  simp [update]

theorem sheet_update_self (h : i < ss.size) : (ss.update i f).sheet i = f (ss.sheet i) := by
  rw [update, sheet, Array.getElem?_modify, if_pos rfl, sheet, Array.getElem?_eq_getElem h]
  rfl

theorem sheet_update_of_ne (h : j ≠ i) : (ss.update i f).sheet j = ss.sheet j := by
  simp [update, sheet, Array.getElem?_modify, h.symm]

theorem update_eq_self (h : f (ss.sheet i) = ss.sheet i) : ss.update i f = ss := by
  refine Array.ext_getElem? fun k => ?_
  rw [update, Array.getElem?_modify]
  split
  · rename_i hik
    subst hik
    rcases hk : ss[i]? with _ | s
    · rfl
    · have : ss.sheet i = s := by simp [sheet, hk]
      rw [this] at h
      simp [h]
  · rfl

theorem settleTo_eq_self (n : Nat) (h : (ss.sheet i).inserts = []) : settleTo n i ss = ss := by
  cases n with
  | zero => rfl
  | succ n =>
    have hsame : ∀ s : Sheet, s.inserts = [] → { s with inserts := [] } = s := by
      rintro ⟨indent, lines, inserts⟩ rfl
      rfl
    rw [settleTo, h]
    exact update_eq_self (hsame _ h)

/-- The block of a construct that waits. -/
def block (ss : Sheets) (indent : Int) (x : Insert) : String :=
  match x.sheet? with
  | some j => margin indent ++ (ss.sheet j).text ++ blockStop x
  | none => ""

/-- Sheets that were started earlier are as they were. -/
def Beyond (i : Nat) (ss ss' : Sheets) : Prop :=
  ss.size ≤ ss'.size ∧ ∀ k < i, ss'.sheet k = ss.sheet k

theorem Beyond.trans {ss₂ : Sheets} (h : Beyond i ss ss₁) (h' : Beyond i ss₁ ss₂) : Beyond i ss ss₂ :=
  ⟨h.1.trans h'.1, fun k hk => (h'.2 k hk).trans (h.2 k hk)⟩

theorem Beyond.mono (h : Beyond j ss ss₁) (hij : i ≤ j) : Beyond i ss ss₁ :=
  ⟨h.1, fun k hk => h.2 k (Nat.lt_of_lt_of_le hk hij)⟩

/-- Constructs that wait on a sheet: each has a later sheet of its own, on which nothing waits. -/
def Waiting (ss : Sheets) (i : Nat) (xs : List Insert) : Prop :=
  (∀ x ∈ xs, ∃ j, x.sheet? = some j ∧ i < j ∧ j < ss.size ∧ (ss.sheet j).inserts = []) ∧ (xs.map (·.sheet?)).Nodup

/-- Makes a construct that waits a block of a sheet. -/
def absorb (n i : Nat) (ss : Sheets) (x : Insert) : Sheets :=
  match x.sheet? with
  | none => ss
  | some j =>
    let ss := settleTo n j ss
    let block := (ss.sheet j).text
    (ss.update i fun s => s.addAt s.indent block (blockStop x)).update j clear

theorem settleTo_succ (n i : Nat) (ss : Sheets) : settleTo (n + 1) i ss
      = ((ss.sheet i).inserts.foldl (absorb n i) ss).update i fun s => { s with inserts := [] } := rfl

theorem absorb_waiting (n : Nat) {x : Insert} (hi : i < ss.size) (h : ss.Waiting i (x :: xs)) :
    (ss.absorb n i x).size = ss.size ∧ (∀ k < i, (ss.absorb n i x).sheet k = ss.sheet k) ∧
      (ss.absorb n i x).sheet i = { ss.sheet i with
        lines := (ss.sheet i).lines ++ [ss.block (ss.sheet i).indent x] } ∧
      (ss.absorb n i x).Waiting i xs ∧
      xs.map ((ss.absorb n i x).block (ss.sheet i).indent) = xs.map (ss.block (ss.sheet i).indent) := by
  obtain ⟨hall, hdistinct⟩ := h
  obtain ⟨j, hj, hij, hjs, hempty⟩ := hall x mem_cons_self
  have hall' := fun y hy => hall y (mem_cons_of_mem _ hy)
  rw [map_cons, nodup_cons, hj] at hdistinct
  have habsorb : ss.absorb n i x = (ss.update i fun s => s.addAt s.indent (ss.sheet j).text (blockStop x)).update j
      clear := by
    rw [absorb, hj]
    dsimp only
    rw [settleTo_eq_self n hempty]
  have hsize : (ss.absorb n i x).size = ss.size := by rw [habsorb, size_update, size_update]
  have hsame : ∀ k, k ≠ i → k ≠ j → (ss.absorb n i x).sheet k = ss.sheet k := by
    intro k hki hkj
    rw [habsorb, sheet_update_of_ne hkj, sheet_update_of_ne hki]
  -- the sheets of the other constructs are neither that of `x` nor the sheet at hand
  have hother : ∀ y ∈ xs, ∀ j', y.sheet? = some j' → (ss.absorb n i x).sheet j' = ss.sheet j' := by
    intro y hy j' hj'
    obtain ⟨j'', hj'', hlt, -, -⟩ := hall' y hy
    obtain rfl : j' = j'' := Option.some.inj (hj'.symm.trans hj'')
    refine hsame j' (Nat.ne_of_gt hlt) ?_
    rintro rfl
    exact hdistinct.1 (mem_map.mpr ⟨y, hy, hj'⟩)
  refine ⟨hsize, fun k hk => hsame k (Nat.ne_of_lt hk) (by omega), ?_, ⟨fun y hy => ?_, hdistinct.2⟩, ?_⟩
  · rw [habsorb, sheet_update_of_ne (Nat.ne_of_lt hij), sheet_update_self hi]
    simp [addAt, block, hj]
  · obtain ⟨j', hj', hlt, hsz, hnone⟩ := hall' y hy
    exact ⟨j', hj', hlt, by rw [hsize]; exact hsz, by rw [hother y hy j' hj']; exact hnone⟩
  · refine map_congr_left fun y hy => ?_
    obtain ⟨j', hj', -⟩ := hall' y hy
    rw [block, block, hj']
    dsimp only
    rw [hother y hy j' hj']

theorem foldl_absorb (n : Nat) (hi : i < ss.size) (h : ss.Waiting i xs) :
    (xs.foldl (absorb n i) ss).size = ss.size ∧ (∀ k < i, (xs.foldl (absorb n i) ss).sheet k = ss.sheet k) ∧
      (xs.foldl (absorb n i) ss).sheet i = { ss.sheet i with
        lines := (ss.sheet i).lines ++ xs.map (ss.block (ss.sheet i).indent) } := by
  induction xs generalizing ss with
  | nil => exact ⟨rfl, fun _ _ => rfl, by simp⟩
  | cons x xs ih =>
    obtain ⟨hsize, hbefore, hsheet, hwaiting, hblocks⟩ := absorb_waiting n hi h
    obtain ⟨hsize', hbefore', hsheet'⟩ := ih (by rw [hsize]; exact hi) hwaiting
    refine ⟨hsize'.trans hsize, fun k hk => (hbefore' k hk).trans (hbefore k hk), ?_⟩
    rw [foldl_cons, hsheet', hsheet]
    simp [hblocks]

/-- What the lines of a sheet are once the constructs that wait are part of it. The flag says whether any
may wait. -/
structure Holds (ss : Sheets) (i : Nat) (indent : Int) (lines : List String) (waits : Bool) : Prop where
  lt : i < ss.size
  indent_eq : (ss.sheet i).indent = indent
  waiting : ss.Waiting i (ss.sheet i).inserts
  settled : waits = false → (ss.sheet i).inserts = []
  lines_eq : (ss.sheet i).lines ++ (ss.sheet i).inserts.map (ss.block indent) = lines

namespace Holds

variable {indent : Int} {lines : List String} {waits : Bool}

theorem of_settled (hlt : i < ss.size) (hsheet : ss.sheet i = ⟨indent, lines, []⟩) (waits : Bool) :
    ss.Holds i indent lines waits where
  lt := hlt
  indent_eq := by rw [hsheet]
  waiting := by rw [hsheet]; exact ⟨by simp, by simp⟩
  settled _ := by rw [hsheet]
  lines_eq := by rw [hsheet]; simp

theorem sheet_eq (h : ss.Holds i indent lines false) : ss.sheet i = ⟨indent, lines, []⟩ := by
  have hinserts := h.settled rfl
  have hindent := h.indent_eq
  have hlines := h.lines_eq
  cases hs : ss.sheet i with
  | mk a b c => simp_all

theorem settle (h : ss.Holds i indent lines waits) :
    (ss.settle i).Holds i indent lines false ∧ Beyond i ss (ss.settle i) := by
  obtain ⟨hsize, hbefore, hsheet⟩ := foldl_absorb ss.size h.lt h.waiting
  rw [h.indent_eq, h.lines_eq] at hsheet
  have hsettle : ss.settle i = _ := settleTo_succ ss.size i ss
  have hlt : i < (ss.settle i).size := by
    rw [hsettle, size_update, hsize]
    exact h.lt
  have hself : (ss.settle i).sheet i = ⟨indent, lines, []⟩ := by
    rw [hsettle, sheet_update_self (by rw [hsize]; exact h.lt), hsheet]
    exact congrArg (fun n => (⟨n, lines, []⟩ : Sheet)) h.indent_eq
  refine ⟨.of_settled hlt hself false, ?_, fun k hk => ?_⟩
  · rw [hsettle, size_update, hsize]
  · rw [hsettle, sheet_update_of_ne (Nat.ne_of_lt hk), hbefore k hk]

theorem addAt (h : ss.Holds i indent lines false) (steps : Int) (text stop : String) :
    (ss.update i fun t => t.addAt steps text stop).Holds i indent (lines ++ [margin steps ++ text ++ stop]) false ∧
      Beyond i ss (ss.update i fun t => t.addAt steps text stop) := by
  refine ⟨.of_settled (by rw [size_update]; exact h.lt) ?_ false, by rw [size_update],
    fun k hk => sheet_update_of_ne (Nat.ne_of_lt hk)⟩
  rw [sheet_update_self h.lt, h.sheet_eq]
  rfl

end Holds

/-! ### Headings -/

/-- A sheet for a new construct, with its heading; the construct waits on the sheet at hand. -/
def openOn (ss : Sheets) (i : Nat) (h : Heading) : Sheets :=
  update (update (ss.push (.blank h.indent)) ss.size fun t => t.add h.text) i fun t =>
    { t with inserts := t.inserts ++ [⟨h.shape, false, some ss.size⟩] }

theorem sheet_push (ss : Sheets) (s : Sheet) (k : Nat) :
    Sheets.sheet (ss.push s) k = if k = ss.size then s else ss.sheet k := by
  rw [sheet, Array.getElem?_push]
  split
  · rfl
  · rfl

section Open

variable (h : Heading)

theorem size_openOn : (ss.openOn i h).size = ss.size + 1 := by
  rw [openOn, size_update, size_update, Array.size_push]

theorem sheet_openOn_of_lt {k : Nat} (hk : k < ss.size) (hki : k ≠ i) : (ss.openOn i h).sheet k = ss.sheet k := by
  rw [openOn, sheet_update_of_ne hki, sheet_update_of_ne (Nat.ne_of_lt hk), sheet_push, if_neg (Nat.ne_of_lt hk)]

variable (hi : i < ss.size)

include hi

theorem sheet_openOn_self : (ss.openOn i h).sheet i = { ss.sheet i with
    inserts := (ss.sheet i).inserts ++ [⟨h.shape, false, some ss.size⟩] } := by
  rw [openOn, sheet_update_self (by rw [size_update, Array.size_push]; omega),
    sheet_update_of_ne (Nat.ne_of_lt hi), sheet_push, if_neg (Nat.ne_of_lt hi)]

theorem beyond_openOn : Beyond i ss (ss.openOn i h) :=
  ⟨by rw [size_openOn]; omega, fun _ hk => sheet_openOn_of_lt h (hk.trans hi) (Nat.ne_of_lt hk)⟩

theorem holds_openOn : (ss.openOn i h).Holds ss.size h.indent [margin h.indent ++ h.text] false := by
  refine .of_settled (by rw [size_openOn]; omega) ?_ false
  rw [openOn, sheet_update_of_ne (Nat.ne_of_gt hi), sheet_update_self (by rw [Array.size_push]; omega), sheet_push]
  simp [blank, add, addAt]

end Open

theorem Holds.after_inner {indent : Int} {lines inside : List String} {waits : Bool} {ss' : Sheets}
    (hss : ss.Holds i indent lines waits) (h : Heading) (hbeyond : Beyond ss.size (ss.openOn i h) ss')
    (hinner : ss'.Holds ss.size h.indent inside false) :
    ss'.Holds i indent (lines ++ [margin indent ++ "\n".intercalate inside
      ++ blockStop ⟨h.shape, false, none⟩]) true := by
  have hself := (hbeyond.2 i hss.lt).trans (sheet_openOn_self h hss.lt)
  have hother : ∀ x ∈ (ss.sheet i).inserts, ∃ j, x.sheet? = some j ∧ i < j ∧ j < ss.size ∧
      (ss.sheet j).inserts = [] ∧ ss'.sheet j = ss.sheet j := by
    intro x hx
    obtain ⟨j, hj, hij, hjs, hempty⟩ := hss.waiting.1 x hx
    exact ⟨j, hj, hij, hjs, hempty, (hbeyond.2 j hjs).trans (sheet_openOn_of_lt h hjs (Nat.ne_of_gt hij))⟩
  have hblocks : (ss.sheet i).inserts.map (ss'.block indent) = (ss.sheet i).inserts.map (ss.block indent) := by
    refine map_congr_left fun x hx => ?_
    obtain ⟨j, hj, -, -, -, hsame⟩ := hother x hx
    rw [block, block, hj]
    dsimp only
    rw [hsame]
  refine ⟨hss.lt.trans hinner.lt, ?_, ⟨fun x hx => ?_, ?_⟩, fun hfalse => Bool.noConfusion hfalse, ?_⟩
  · rw [hself]
    exact hss.indent_eq
  · rw [hself] at hx
    rcases mem_append.mp hx with hx | hx
    · obtain ⟨j, hj, hij, hjs, hempty, hsame⟩ := hother x hx
      exact ⟨j, hj, hij, hjs.trans hinner.lt, by rw [hsame]; exact hempty⟩
    · obtain rfl := mem_singleton.mp hx
      exact ⟨ss.size, rfl, hss.lt, hinner.lt, hinner.settled rfl⟩
  · rw [hself, map_append, nodup_append]
    refine ⟨hss.waiting.2, by simp, fun a ha b hb => ?_⟩
    obtain ⟨x, hx, rfl⟩ := mem_map.mp ha
    obtain ⟨j, hj, -, hjs, -⟩ := hss.waiting.1 x hx
    obtain rfl : b = some ss.size := by simpa using hb
    rw [hj]
    exact fun heq => Nat.ne_of_lt hjs (Option.some.inj heq)
  · rw [hself, map_append, hblocks, ← append_assoc, hss.lines_eq]
    simp [block, hinner.sheet_eq, text, blockStop]

end Sheets

namespace Desk

open Sheets

section Write

variable {shape : Shape} {i : Nat} (closing : Keyword) {e : Event} {d d' : Desk} {l : Listener} {s : Statement}

/-- The desk on which a writer writes an event: the sheet is settled first where it has to be. -/
def readied (d : Desk) (shape : Shape) (i : Nat) (e : Event) : Desk :=
  if settles shape e.verb then { d with sheets := d.sheets.settle i } else d

theorem outcome_visit_eq (he : shape.hears e.verb = true) : outcome ((writer shape i closing .nobody).visit e) d
      = outcome (do
          let l ← write shape i closing .nobody e
          pure (if e.verb = .array then .nobody else l)) (d.readied shape i e) := by
  have hears : (writer shape i closing .nobody).hears e.verb = true := by
    simpa [hears, shape?] using he
  have hrest : (if e.verb = .array then (do
        let _ ← write shape i closing .nobody e
        pure .nobody) else write shape i closing .nobody e)
      = (do
          let l ← write shape i closing .nobody e
          pure (if e.verb = .array then .nobody else l)) := by
    split
    · rfl
    · simp
  rw [visit, if_pos hears, deliver]
  rw [← hrest, readied]
  split
  · rfl
  · rfl

theorem outcome_visit_writer (he : shape.hears e.verb = true)
    (hwrite : outcome (write shape i closing .nobody e) (d.readied shape i e) = (.ok l, d')) :
    outcome ((writer shape i closing .nobody).visit e) d = (.ok (if e.verb = .array then .nobody else l), d') := by
  rw [outcome_visit_eq closing he, bind_ok _ hwrite]
  rfl

theorem Holds.readied {indent : Int} {lines : List String} {waits : Bool}
    (h : d.sheets.Holds i indent lines waits) (shape : Shape) (e : Event) :
    (d.readied shape i e).sheets.Holds i indent lines (waits && !settles shape e.verb) ∧
      Beyond i d.sheets (d.readied shape i e).sheets := by
  unfold Desk.readied
  split
  · rename_i hsettles
    rw [hsettles, Bool.not_true, Bool.and_false]
    exact h.settle
  · rename_i hsettles
    rw [Bool.eq_false_iff.mpr hsettles, Bool.not_false, Bool.and_true]
    exact ⟨h, Nat.le_refl _, fun _ _ => rfl⟩

/-- The desk after a statement was written on a sheet. -/
def put (d : Desk) (i : Nat) (s : Statement) : Desk :=
  let steps := (d.sheets.sheet i).indent + s.deeper
  { d with sheets := d.sheets.update i (·.addAt steps s.text s.stop) }

/-- The end of a construct and a comment behind a line are written in a way of their own; everything else is
a heading or a statement. -/
theorem write_eq (hother : ¬(e.verb = .close ∨ e.verb = .trailing)) (next : Listener) :
    write shape i closing next e = (do
      let indent := (← sheet i).indent
      match ← attempt (heading shape indent e) with
      | some h =>
        let j ← startSheet h.indent
        updateSheet j fun t => t.add h.text
        updateSheet i fun t => { t with inserts := t.inserts ++ [⟨h.shape, false, some j⟩] }
        pure (.writer h.shape j h.closing next)
      | none =>
        match ← attempt (statement shape indent e) with
        | some s => updateSheet i fun t => t.addAt (indent + s.deeper) s.text s.stop
        | none => pure ()
        pure .nobody) := by
  cases e <;> first | rfl | exact absurd (.inl rfl) hother | exact absurd (.inr rfl) hother

theorem outcome_sheet (i : Nat) (d : Desk) : outcome (sheet i) d = (.ok (d.sheets.sheet i), d) := rfl

theorem outcome_attempt {α : Type} (x : Except Fault α) (d : Desk) : outcome (attempt x) d = (x, d) := rfl

theorem unwritten (he : e.verb = .close ∨ e.verb = .trailing) (indent : Int) :
    heading shape indent e = .ok none ∧ statement shape indent e = .ok none := by
  cases e <;> simp [Event.verb] at he <;> cases shape <;> exact ⟨rfl, rfl⟩

theorem outcome_write_statement (hheading : heading shape (d.sheets.sheet i).indent e = .ok none)
    (hstatement : statement shape (d.sheets.sheet i).indent e = .ok (some s)) :
    outcome (write shape i closing .nobody e) d = (.ok .nobody, d.put i s) := by
  have hother : ¬(e.verb = .close ∨ e.verb = .trailing) := by
    intro he
    cases hstatement.symm.trans (unwritten he _).2
  rw [write_eq closing hother, bind_ok _ (outcome_sheet i d)]
  dsimp only
  rw [hheading]
  rw [hstatement]
  rfl

theorem outcome_write_fault (hother : ¬(e.verb = .close ∨ e.verb = .trailing))
    (hheading : heading shape (d.sheets.sheet i).indent e = .ok none) {f : Fault}
    (hstatement : statement shape (d.sheets.sheet i).indent e = .error f) :
    outcome (write shape i closing .nobody e) d = (.error f, d) := by
  rw [write_eq closing hother, bind_ok _ (outcome_sheet i d)]
  dsimp only
  rw [hheading, bind_ok _ (outcome_attempt _ d)]
  rw [hstatement, outcome_bind, outcome_attempt]

theorem outcome_write_heading {h : Heading} (hheading : heading shape (d.sheets.sheet i).indent e = .ok (some h)) :
    outcome (write shape i closing .nobody e) d
      = (.ok (.writer h.shape d.sheets.size h.closing .nobody), { d with sheets := d.sheets.openOn i h }) := by
  have hother : ¬(e.verb = .close ∨ e.verb = .trailing) := by
    intro he
    cases hheading.symm.trans (unwritten he _).1
  rw [write_eq closing hother, bind_ok _ (outcome_sheet i d)]
  dsimp only
  rw [hheading]
  rfl

theorem outcome_write_close : outcome (write shape i closing .nobody .close) d
      = (.ok .nobody, match closingStatement shape closing with
          | some s => d.put i s
          | none => d) := by
  cases shape <;> rfl

variable {indent : Int} {lines : List String} {waits : Bool}

theorem visit_statement (h : d.sheets.Holds i indent lines waits) {e : Event}
    (he : shape.hears e.verb = true) (hready : settles shape e.verb = true ∨ waits = false)
    (hheading : heading shape indent e = .ok none)
    (hstatement : statement shape indent e = .ok (some s)) :
    ∃ l d', outcome ((writer shape i closing .nobody).visit e) d = (.ok l, d') ∧
      d'.sheets.Holds i indent (lines ++ [s.line indent]) false ∧ Beyond i d.sheets d'.sheets := by
  obtain ⟨hheld, hbeyond⟩ := Holds.readied h shape e
  have hnone : (waits && !settles shape e.verb) = false := by
    rcases hready with hs | rfl
    · rw [hs]
      simp
    · rfl
  rw [hnone] at hheld
  have hindent := hheld.indent_eq
  obtain ⟨hput, hbeyond'⟩ := hheld.addAt (indent + s.deeper) s.text s.stop
  have hwrite := @outcome_write_statement shape i closing e (d.readied shape i e) s
    (by rw [hindent]; exact hheading) (by rw [hindent]; exact hstatement)
  refine ⟨_, _, outcome_visit_writer closing he hwrite, ?_, ?_⟩
  · rw [put, hindent]
    exact hput
  · rw [put, hindent]
    exact hbeyond.trans hbeyond'

theorem visit_close (shape : Shape) (h : d.sheets.Holds i indent lines waits) :
    ∃ l d', outcome ((writer shape i closing .nobody).visit .close) d = (.ok l, d') ∧
      d'.sheets.Holds i indent (lines ++ closingLines shape closing indent) false ∧
      Beyond i d.sheets d'.sheets := by
  obtain ⟨hheld, hbeyond⟩ := Holds.readied h shape .close
  have hnone : (waits && !settles shape .close) = false := by
    cases shape <;> cases waits <;> rfl
  have he : shape.hears Verb.close = true := by cases shape <;> rfl
  rw [show Event.close.verb = Verb.close from rfl, hnone] at hheld
  have hindent := hheld.indent_eq
  refine ⟨_, _, outcome_visit_writer closing he (outcome_write_close closing), ?_⟩
  unfold closingLines
  cases closingStatement shape closing with
  | none => exact ⟨by simpa using hheld, hbeyond⟩
  | some s =>
    obtain ⟨hput, hbeyond'⟩ := hheld.addAt (indent + s.deeper) s.text s.stop
    dsimp only
    rw [put, hindent]
    exact ⟨hput, hbeyond.trans hbeyond'⟩

end Write

end Desk

/-- Whether a writer has a statement or a heading for every call, and every statement follows the constructs
before it. The flag says whether a construct waits. -/
def Script.Writable : Script → Shape → Bool → Prop
  | .done, _, _ => True
  | .tell e rest, shape, waits =>
    (shape.hears e.verb = true ∧ ∀ indent, heading shape indent e = .ok none ∧
      ∃ s, statement shape indent e = .ok (some s)) ∧
    (settles shape e.verb = true ∨ waits = false) ∧ rest.Writable shape false
  | .nest e body rest, shape, _ =>
    (∃ inner, shape.hears e.verb = true ∧ e.verb ≠ .array ∧
      (∀ indent, ∃ h, heading shape indent e = .ok (some h) ∧ h.shape = inner) ∧
      body.Writable inner false) ∧ rest.Writable shape true

open Desk

theorem Desk.Told.writable {e : Event} (h : Told shape e) :
    shape.hears e.verb = true ∧ ∀ indent, heading shape indent e = .ok none ∧
      ∃ s, statement shape indent e = .ok (some s) := by
  refine ⟨h.hears, fun indent => ?_⟩
  obtain ⟨hheading, s, hs, -⟩ := h.written indent
  exact ⟨hheading, s, hs⟩

theorem Desk.Opened.writable {shape inner : Shape} {sort : String} {e : Event} (h : Opened shape inner sort e) :
    shape.hears e.verb = true ∧ e.verb ≠ .array ∧
      ∀ indent, ∃ h, heading shape indent e = .ok (some h) ∧ h.shape = inner := by
  refine ⟨h.hears, fun he => ?_, fun indent => ?_⟩
  · have hopens := h.opens
    rw [he] at hopens
    cases hopens
  · obtain ⟨x, hheading, hshape, -⟩ := h.written indent
    exact ⟨x, hheading, hshape⟩

theorem Script.Sound.writable (h : sc.Sound shape waits) : sc.Writable shape waits := by
  induction sc generalizing shape waits with
  | done => trivial
  | tell e rest ih => exact ⟨h.1.writable, h.2.1, ih h.2.2⟩
  | nest e body rest ihbody ihrest =>
    obtain ⟨⟨inner, sort, hopened, -, hbody⟩, hrest⟩ := h
    obtain ⟨hears, hnew, hheading⟩ := hopened.writable
    exact ⟨⟨inner, hears, hnew, hheading, ihbody hbody⟩, ihrest hrest⟩

open Sheets in
theorem Script.Writable.writes (h : sc.Writable shape waits) {i : Nat} {indent : Int}
    {lines : List String} {d : Desk} (hd : d.sheets.Holds i indent lines waits) (closing : Keyword) :
    ∃ d' waits', outcome (sc.drive (.writer shape i closing .nobody)) d = (.ok (), d') ∧
      d'.sheets.Holds i indent (lines ++ sc.lines shape indent) waits' ∧ Beyond i d.sheets d'.sheets := by
  induction sc generalizing shape waits i indent lines d closing with
  | done => exact ⟨d, waits, rfl, by simpa [Script.lines] using hd, Nat.le_refl _, fun _ _ => rfl⟩
  | tell e rest ih =>
    obtain ⟨⟨hears, hwritten⟩, hready, hrest⟩ := h
    obtain ⟨hheading, s, hstatement⟩ := hwritten indent
    obtain ⟨l, d₁, hvisit, hd₁, hbeyond⟩ := visit_statement closing hd hears hready hheading hstatement
    obtain ⟨d₂, waits₂, hdrive, hd₂, hbeyond₂⟩ := ih hrest hd₁ closing
    refine ⟨d₂, waits₂, ?_, ?_, hbeyond.trans hbeyond₂⟩
    · rw [Script.drive, bind_ok _ hvisit]
      exact hdrive
    · rw [Script.lines, hstatement]
      simpa using hd₂
  | nest e body rest ihbody ihrest =>
    obtain ⟨⟨inner, hears, hnew, hwritten, hbody⟩, hrest⟩ := h
    obtain ⟨h, hheading, rfl⟩ := hwritten indent
    obtain ⟨hheld, hbeyond⟩ := Holds.readied hd shape e
    have hvisit := outcome_visit_writer closing hears
      (outcome_write_heading closing (by rw [hheld.indent_eq]; exact hheading))
    rw [if_neg hnew] at hvisit
    -- the construct is written on its own sheet, up to its end
    obtain ⟨d₂, waits₂, hdrive, hd₂, hbeyond₂⟩ := ihbody hbody
      (d := { d.readied shape i e with sheets := (d.readied shape i e).sheets.openOn i h })
      (holds_openOn h hheld.lt) h.closing
    obtain ⟨l, d₃, hclose, hd₃, hbeyond₃⟩ := visit_close h.closing h.shape hd₂
    have hafter := hheld.after_inner h (hbeyond₂.trans hbeyond₃) hd₃
    obtain ⟨d₄, waits₄, hdrive₄, hd₄, hbeyond₄⟩ := ihrest hrest hafter closing
    refine ⟨d₄, waits₄, ?_, ?_, ?_⟩
    · rw [Script.drive, bind_ok _ hvisit, bind_ok _ hdrive, bind_ok _ hclose]
      exact hdrive₄
    · rw [Script.lines, hheading]
      simpa using hd₄
    · have hinside := (hbeyond₂.trans hbeyond₃).mono (Nat.le_of_lt hheld.lt)
      exact (hbeyond.trans (beyond_openOn h hheld.lt)).trans (hinside.trans hbeyond₄)

/-- The listing of a class: a new writer is called, is told its end, and is then asked for its text. -/
def Script.write (sc : Script) (indent : Int) : Act String := do
  let writer ← newWriter .classDef indent .nobody
  sc.conclude writer
  match writer with
  | .writer _ sheet _ _ => code sheet true
  | _ => throw .noOperation

/-- The listing of a construct: a new writer is called, is told its end, and is then asked for its text. -/
def Script.writeIn (sc : Script) (shape : Shape) (indent : Int) : Act String := do
  let writer ← newWriter shape indent .nobody
  sc.conclude writer
  match writer with
  | .writer _ sheet _ _ => code sheet true
  | _ => throw .noOperation

open Sheets in
theorem Script.Writable.outcome_writeIn (h : sc.Writable shape false) (indent : Int) (d : Desk) :
    ∃ d', outcome (sc.writeIn shape indent) d = (.ok ("\n".intercalate (sc.lines shape indent
      ++ closingLines shape (closingOf shape) indent)), d') := by
  have hnew : outcome (newWriter shape indent .nobody) d = (.ok (.writer shape d.sheets.size (closingOf shape) .nobody),
          { d with sheets := d.sheets.push (.blank indent) }) := rfl
  have hblank : Sheets.Holds (d.sheets.push (.blank indent)) d.sheets.size indent [] false := by
    refine .of_settled (by rw [Array.size_push]; omega) ?_ false
    rw [sheet_push, if_pos rfl]
    rfl
  obtain ⟨d₁, waits, hdrive, hd₁, -⟩ := h.writes (d := { d with sheets := d.sheets.push (.blank indent) })
    hblank (closingOf shape)
  obtain ⟨l, d₂, hclose, hd₂, -⟩ := visit_close (closingOf shape) shape hd₁
  have hsettled := hd₂.settle.1.sheet_eq
  refine ⟨{ d₂ with sheets := d₂.sheets.settle d.sheets.size }, ?_⟩
  have hconclude : outcome (sc.conclude (.writer shape d.sheets.size (closingOf shape) .nobody))
      { d with sheets := d.sheets.push (.blank indent) } = (.ok (), d₂) := by
    rw [Script.conclude, bind_ok _ hdrive, bind_ok _ hclose]
    rfl
  have hcode : outcome (code d.sheets.size true) d₂
      = (.ok (Sheets.sheet (d₂.sheets.settle d.sheets.size) d.sheets.size).text,
          { d₂ with sheets := d₂.sheets.settle d.sheets.size }) := rfl
  rw [writeIn, bind_ok _ hnew, bind_ok _ hconclude, hcode, hsettled]
  simp [text]

theorem Script.Writable.outcome_write (h : sc.Writable .classDef false) (indent : Int) (d : Desk) :
    ∃ d', outcome (sc.write indent) d = (.ok ("\n".intercalate (sc.lines .classDef indent)), d') := by
  obtain ⟨d', hwrite⟩ := h.outcome_writeIn indent d
  have hend : closingLines .classDef (closingOf .classDef) indent = [] := rfl
  rw [hend, append_nil] at hwrite
  exact ⟨d', hwrite⟩

end Dalvik
