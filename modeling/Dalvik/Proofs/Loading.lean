import Dalvik.Machine.Loader
import Dalvik.Proofs.Code
import Dalvik.Proofs.Conduct
import Mathlib.Data.List.Forall2

/-!
# Loading the body of a method

The body of a method is loaded line by line. A line with a label enters the label with the number of lines
entered before it, and a line with an instruction appends one instruction; both count as lines entered. So a
frame is its old self with the items of the lines entered one after another (`Store.Loads.frame_eq`), and the
position of a label is the number of labels and instructions in front of it.
-/

namespace Dalvik

open List Read Contract

variable {e : Event} {text name : String} {lines : List String} {m i : Nat} {st : Slots LoadNode}
  {s t : Session LoadNode Store} {w w' : Store}

/-! ### Statements that deliver one event -/

section TellsOnce

variable {ν σ : Type}
variable {α : Type} {x : Read ν σ α} {k : α → Read ν σ Unit}

/-- The contract of steps that only pass words. -/
def Read.stillContract : Contract (Session ν σ) where
  holds _ := True
  leads s t := t.source = s.source ∧ t.stack = s.stack ∧ t.world = s.world
  admits _ _ := True
  refl _ := ⟨rfl, rfl, rfl⟩
  trans h h' := ⟨h'.1.trans h.1, h'.2.1.trans h.2.1, h'.2.2.trans h.2.2⟩

theorem Read.still_passes : Reader.Passes (stillContract (ν := ν) (σ := σ)) where
  moves _ _ hs := ⟨hs, rfl, rfl, rfl⟩
  faults _ _ _ _ := trivial

/-- A statement that, where it succeeds for a construct with a listener, passes words, delivers one event of
a sort, and then the comment of its line. -/
def Reader.TellsOnce (r : Reader ν σ) (p : Event → Prop) (x : Read ν σ Unit) : Prop :=
  ∀ s t n st, s.stack = .node n :: st → outcome x s = (.ok (), t) → ∃ e u, p e ∧ stillContract.leads s u ∧
      outcome (r.tell e >>= fun _ => r.publishComment) u = (.ok (), t)

namespace Reader.TellsOnce

variable {r : Reader ν σ} {p : Event → Prop}

theorem tell (he : p e) : r.TellsOnce p (r.tell e >>= fun _ => r.publishComment) :=
  fun s _ _ _ _ h => ⟨e, s, he, stillContract.refl s, h⟩

theorem bind (hx : stillContract.Kept x) (hk : ∀ a, r.TellsOnce p (k a)) : r.TellsOnce p (x >>= k) := by
  intro s t n st hst h
  obtain ⟨a, u, hxa, hka⟩ := outcome_bind_eq_ok s h
  have hsu := (hx s trivial).leads_of hxa
  obtain ⟨e, v, he, huv, hv⟩ := hk a u t n st (hsu.2.1.trans hst) hka
  exact ⟨e, v, he, stillContract.trans hsu huv, hv⟩

theorem onLine (hx : Parallel x x) (hk : ∀ a, r.TellsOnce p (k a)) : r.TellsOnce p (x >>= k) :=
  .bind (still_passes.onLine hx) hk

theorem ite {q : Prop} [Decidable q] {x y : Read ν σ Unit} (hx : q → r.TellsOnce p x)
    (hy : ¬q → r.TellsOnce p y) : r.TellsOnce p (if q then x else y) := by
  split
  · exact hx ‹q›
  · exact hy ‹¬q›

theorem unlessMuted {x : Read ν σ Unit} (hx : r.TellsOnce p x) : r.TellsOnce p (r.unlessMuted x) := by
  rintro ⟨src, k, stack, d⟩ t n st hst h
  obtain rfl : stack = .node n :: st := hst
  exact hx _ t n st rfl h

end Reader.TellsOnce

/-- The events of instructions. -/
def Event.isInstruction : Event → Prop
  | .jump _ | .call .. | .ret .. | .instruction .. => True
  | _ => False

theorem Reader.tellsOnce_instruction (r : Reader ν σ) : r.TellsOnce Event.isInstruction r.instruction := by
  refine .unlessMuted (.onLine parallel_nextWord fun name => .ite (fun _ => ?_) fun _ => ?_)
  · refine .onLine parallel_braced fun registers => .onLine parallel_lastWord fun last => .onLine (parallel_halves _ _) fun p => ?_
    exact .onLine (parallel_checkDescriptor rfl p.1) fun _ => .tell trivial
  · refine .ite (fun _ => .onLine (parallel_operands _) fun _ => .tell trivial) fun _ => ?_
    refine .ite (fun _ => .onLine parallel_peekWord fun _ => .tell trivial) fun _ => ?_
    exact .onLine (parallel_operands _) fun _ => .tell trivial

end TellsOnce

/-! ### Tables -/

namespace Table

variable {κ α : Type} [BEq κ] [LawfulBEq κ]

theorem get?_set_self (t : Table κ α) (k : κ) (v : α) : (t.set k v).get? k = some v := by
  induction t with
  | nil => simp [set, get?]
  | cons entry rest ih =>
    obtain ⟨key, value⟩ := entry
    by_cases h : k = key
    · simp [set, get?, h]
    · have hne : (k == key) = false := by simpa using h
      simp only [set, hne]
      simpa [get?, lookup_cons, hne] using ih

theorem get?_set_ne {t : Table κ α} {k k' : κ} {v : α} (h : k ≠ k') : (t.set k' v).get? k = t.get? k := by
  induction t with
  | nil => simp [set, get?, h]
  | cons entry rest ih =>
    obtain ⟨key, value⟩ := entry
    by_cases he : k' = key
    · subst he
      have hne : (k == k') = false := by simpa using h
      simp [set, get?, lookup_cons, hne]
    · have hne : (k' == key) = false := by simpa using he
      have hrest : lookup k (set rest k' v) = lookup k rest := ih
      simp [set, hne, get?, lookup_cons, hrest]

end Table

/-! ### What a line enters into a frame -/

/-- What a line of a body enters into the frame of its method. -/
inductive Item where
  | label (name : String)
  | code (x : Instruction)

namespace Item

variable {items : List Item}

/-- Enters an item into a frame. -/
def enter (f : Frame) : Item → Frame
  | label name =>
    { f with labels := f.labels.set name f.loaded, loaded := f.loaded + 1, lastLabel? := some name }
  | code x => { f with instructions := f.instructions.push x, loaded := f.loaded + 1 }

/-- The first word of a line that is no comment. -/
def firstWord? (text : String) : Option String :=
  if Line.isRemark text then none
  else match Line.ofString text with
    | .ok l => l.words.head?
    | .error _ => none

/-- The item of a line: a word that opens with a colon is a label, and any other word that opens with no dot
is the name of an instruction. -/
def Of (text : String) : Item → Prop
  | label name => ∃ w, firstWord? text = some w ∧ w.toList.head? = some ':' ∧ name = Reader.labelName w
  | code _ => ∃ w c, firstWord? text = some w ∧ w.toList.head? = some c ∧ c ≠ '.' ∧ c ≠ ':'

/-- Whether a line has a label. -/
def isLabelLine (text : String) : Bool :=
  (firstWord? text).any fun w => w.toList.head? == some ':'

theorem Of.isLabelLine_of_label (h : Of text (label name)) : isLabelLine text = true := by
  obtain ⟨w, hw, hc, -⟩ := h
  simp [isLabelLine, hw, hc]

theorem Of.isLabelLine_of_code {x : Instruction} (h : Of text (code x)) : isLabelLine text = false := by
  obtain ⟨w, c, hw, hc, -, hcolon⟩ := h
  simp [isLabelLine, hw, hc, hcolon]

theorem Of.eq_label {item : Item} (h : Of text (label name)) (h' : Of text item) : item = label name := by
  cases item with
  | label name' =>
    obtain ⟨w, hw, -, rfl⟩ := h
    obtain ⟨w', hw', -, rfl⟩ := h'
    rw [Option.some.inj (hw.symm.trans hw')]
  | code x =>
    have htrue := h.isLabelLine_of_label
    rw [h'.isLabelLine_of_code] at htrue
    cases htrue

/-- The instructions among some items. -/
def codes : List Item → List Instruction
  | [] => []
  | label _ :: items => codes items
  | code x :: items => x :: codes items

/-- The number of labels among some items. -/
def labelCount : List Item → Nat
  | [] => 0
  | label _ :: items => labelCount items + 1
  | code _ :: items => labelCount items

theorem length_eq (items : List Item) : items.length = (codes items).length + labelCount items := by
  induction items with
  | nil => rfl
  | cons item items ih =>
    cases item with
    | label name => simp only [length_cons, codes, labelCount, ih]; omega
    | code x => simp only [length_cons, codes, labelCount, ih]; omega

theorem labelCount_eq_countP (h : Forall₂ Of lines items) : labelCount items = lines.countP isLabelLine := by
  induction h with
  | nil => rfl
  | @cons text item _ _ hof _ ih =>
    cases item with
    | label name => rw [labelCount, ih, countP_cons_of_pos hof.isLabelLine_of_label]
    | code x => rw [labelCount, ih, countP_cons_of_neg (by simp [hof.isLabelLine_of_code])]

theorem exists_line_of_mem (h : Forall₂ Of lines items) : ∀ item ∈ items, ∃ l ∈ lines, Of l item := by
  induction h with
  | nil => simp
  | cons hhead _ ih =>
    rintro item (_ | ⟨_, hmem⟩)
    · exact ⟨_, .head _, hhead⟩
    · obtain ⟨l, hl, hof⟩ := ih item hmem
      exact ⟨l, .tail _ hl, hof⟩

theorem instructions_foldl (items : List Item) (f : Frame) :
    (items.foldl enter f).instructions.toList = f.instructions.toList ++ codes items := by
  induction items generalizing f with
  | nil => simp [codes]
  | cons item items ih => cases item <;> simp [ih, enter, codes]

theorem loaded_foldl (items : List Item) (f : Frame) : (items.foldl enter f).loaded = f.loaded + items.length := by
  induction items generalizing f with
  | nil => rfl
  | cons item items ih =>
    cases item <;> simp only [foldl_cons, ih, enter, length_cons] <;> omega

theorem labels_foldl_of_not_mem (h : ∀ item ∈ items, item ≠ label name) (f : Frame) :
    (items.foldl enter f).labels.get? name = f.labels.get? name := by
  induction items generalizing f with
  | nil => rfl
  | cons item items ih =>
    rw [foldl_cons, ih fun x hx => h x (mem_cons_of_mem _ hx)]
    cases item with
    | label name' =>
      have hne : name ≠ name' := fun e => h _ mem_cons_self (by rw [e])
      exact Table.get?_set_ne hne
    | code x => rfl

theorem labels_foldl (after : List Item) (h : ∀ item ∈ after, item ≠ label name) (f : Frame) :
    ((label name :: after).foldl enter f).labels.get? name = some (f.loaded : Int) := by
  rw [foldl_cons, labels_foldl_of_not_mem h]
  exact Table.get?_set_self _ _ _

end Item

namespace Store

open LoadNode

theorem outcome_reading {α : Type} (x : Act α) (src : Source) (k : Cursor) (st : Slots LoadNode) (w : Store) :
    outcome (reading x) ⟨src, k, st, w⟩ = ((outcome x w).1, ⟨src, k, st, (outcome x w).2⟩) := by
  rcases hx : outcome x w with ⟨a, w'⟩
  have hx' : x.run.run w = (a, w') := hx
  cases a <;> simp [reading, outcome_bind, outcome_attempt, hx']

theorem outcome_sendTo {n : LoadNode} (hears : n.shape.hears e.verb = true) (src : Source) (k : Cursor)
    (st : Slots LoadNode) (w : Store) :
    outcome (loadReader.sendTo (.node n) e) ⟨src, k, st, w⟩ =
      ((outcome (n.deliver e) w).1, ⟨src, k, st, (outcome (n.deliver e) w).2⟩) := by
  rw [loadReader.sendTo_node hears]
  exact outcome_reading (n.deliver e) src k st w

theorem outcome_sendTo_trailing (n : LoadNode) (text : Datum) (s : Session LoadNode Store) :
    outcome (loadReader.sendTo (.node n) (.trailing text)) s = (.ok none, s) := by
  cases n <;> rfl

theorem still_publishComment : stillContract.Kept loadReader.publishComment := by
  have h := still_passes (ν := LoadNode) (σ := Store)
  refine (h.onLine parallel_currentLine).bind fun l => ?_
  split
  · exact kept_pure _
  · refine h.top.bind fun slot => kept_ite (fun _ => kept_pure _) fun hpresent => ?_
    refine Kept.bind (fun s hs => ?_) fun _ => kept_pure _
    cases slot with
    | absent => simp [Slot.isAbsent] at hpresent
    | blank shape => exact .of_ok (a := none) (by cases shape <;> rfl) hs (refl _ s)
    | node n => exact .of_ok (outcome_sendTo_trailing n _ s) hs (refl _ s)

theorem tellsOnce_loaded {p : Event → Prop} {x : Read LoadNode Store Unit} (hx : loadReader.TellsOnce p x)
    (hp : ∀ e, p e → Shape.method.hears e.verb = true) (hst : s.stack = .node (.method m i) :: st)
    (hok : outcome x s = (.ok (), t)) :
    t.source = s.source ∧ t.stack = s.stack ∧
      ∃ e node?, p e ∧ outcome (onMethod m i e) s.world = (.ok node?, t.world) := by
  obtain ⟨e, ⟨src, k, stack, w⟩, he, ⟨hsrc, hstack, hw⟩, htell⟩ := hx s t _ st hst hok
  obtain rfl : stack = .node (.method m i) :: st := hstack.trans hst
  obtain ⟨_, v, htold, hpublished⟩ := outcome_bind_eq_ok _ htell
  obtain ⟨node?, v', hsent, hpure⟩ := outcome_bind_eq_ok _ htold
  have hsend : outcome (loadReader.sendTo (.node (.method m i)) e)
      ⟨src, k, .node (.method m i) :: st, w⟩ = (.ok node?, v') := hsent
  have hears : (LoadNode.method m i).shape.hears e.verb = true := hp e he
  rw [outcome_sendTo hears] at hsend
  obtain ⟨hres, rfl⟩ := Prod.mk.inj hsend
  obtain rfl : _ = v := by simpa using hpure
  obtain ⟨hsrc', hstack', hw'⟩ := (still_publishComment _ trivial).leads_of hpublished
  refine ⟨hsrc'.trans hsrc, hstack'.trans hst.symm, e, node?, he, ?_⟩
  obtain rfl : w = s.world := hw
  rw [hw']
  exact Prod.ext hres rfl

/-! ### One line -/

theorem outcome_actionsOf (vm : Nat) (w : Store) : ∃ t, outcome (actionsOf vm) w = (.ok t, w) := by
  cases h : ((w.vms[vm]?).getD default).actions? with
  | none => exact ⟨w.table, by simp [actionsOf, vmInfo, outcome_bind, outcome_map, h, Except.map]⟩
  | some t => exact ⟨t, by simp [actionsOf, vmInfo, outcome_bind, h]⟩

theorem bindInstruction_ok {operands : Datum} (h : outcome (bindInstruction i name operands) w = (.ok (), w')) :
    ∃ a, w' = { w with frames := w.frames.modify i fun f => (Item.code ⟨a, operands⟩).enter f } := by
  have added : ∀ a, outcome (addInstruction i a operands) w = (.ok (), w') →
      ∃ a, w' = { w with frames := w.frames.modify i fun f => (Item.code ⟨a, operands⟩).enter f } := by
    intro a ha
    exact ⟨a, (Prod.mk.inj ha).2.symm⟩
  have hframe : outcome (frameInfo i) w = (.ok (w.frame i), w) := rfl
  rw [bindInstruction, bind_ok w hframe] at h
  split at h
  · cases h
  · rename_i vm _
    obtain ⟨actions, hactions⟩ := outcome_actionsOf vm w
    rw [bind_ok w hactions] at h
    dsimp only at h
    split at h
    · cases h
    · split at h
      · exact added _ h
      · have hvm : outcome (vmInfo vm) w = (.ok ((w.vms[vm]?).getD default), w) := rfl
        rw [bind_ok w hvm] at h
        split at h
        · cases h
        · exact added _ h

theorem onMethod_instruction (he : e.isInstruction) {node? : Option LoadNode}
    (h : outcome (onMethod m i e) w = (.ok node?, w')) :
    ∃ x, w' = { w with frames := w.frames.modify i fun f => (Item.code x).enter f } := by
  cases e with
  | jump l => exact ⟨⟨firstAction "goto", l⟩, (Prod.mk.inj h).2.symm⟩
  | call a b c d => exact ⟨⟨firstAction "invoke", .list [a, b, c, d]⟩, (Prod.mk.inj h).2.symm⟩
  | ret variant operands =>
    obtain ⟨_, u, hu, hpure⟩ := outcome_bind_eq_ok w h
    obtain ⟨a, hx⟩ := bindInstruction_ok hu
    exact ⟨⟨a, operands⟩, by rw [← hx]; exact (Prod.mk.inj hpure).2.symm⟩
  | instruction name operands =>
    obtain ⟨_, u, hu, hpure⟩ := outcome_bind_eq_ok w h
    obtain ⟨a, hx⟩ := bindInstruction_ok hu
    exact ⟨⟨a, operands⟩, by rw [← hx]; exact (Prod.mk.inj hpure).2.symm⟩
  | _ => cases he

theorem frame_enter (w : Store) (hi : i < w.frames.size) (item : Item) :
    ({ w with frames := w.frames.modify i fun f => item.enter f } : Store).frame i = item.enter (w.frame i) := by
  simp [frame, Array.getElem_modify, hi]

theorem outcome_readLine_of_firstWord {w : String} {c : Char} (hw : Item.firstWord? text = some w)
    (hc : w.toList.head? = some c) (ls : Lines) (k : Cursor) (st : Slots LoadNode) (d : Store) :
    ∃ l ws, outcome loadReader.readLine ⟨⟨some text :: ls⟩, k, st, d⟩
      = outcome loadReader.statement ⟨⟨ls⟩, ⟨some l, w :: ws⟩, st, d⟩ := by
  unfold Item.firstWord? at hw
  split at hw
  · cases hw
  · rename_i hremark
    split at hw
    · rename_i l hl
      have hne : w ≠ "" := by
        rintro rfl
        cases hc
      have hcleaned := Line.cleaned_ne_empty hl hw hne
      have htext : text ≠ "" := by
        rintro rfl
        cases hl
        exact hcleaned rfl
      obtain ⟨ws, hws⟩ : ∃ ws, l.words = w :: ws := by
        cases hwords : l.words with
        | nil => simp [hwords] at hw
        | cons a ws => exact ⟨ws, by simpa [hwords] using hw⟩
      refine ⟨l, ws, ?_⟩
      rw [loadReader.outcome_readLine (by simpa using hremark) htext hl hcleaned, hws]
    · cases hw

/-- A line of a body that is read enters its item into the frame of the method, and nothing else of the
frames changes. -/
theorem readLine_enters {ls : Lines} (hst : s.stack = .node (.method m i) :: st)
    (hs : s.source.lines = some text :: ls) (hkind : ∃ item, Item.Of text item)
    (hok : outcome loadReader.readLine s = (.ok (), t)) :
    t.source.lines = ls ∧ t.stack = s.stack ∧ ∃ item, Item.Of text item ∧
      t.world = { s.world with frames := s.world.frames.modify i fun f => item.enter f } := by
  obtain ⟨⟨lines⟩, k, stack, d⟩ := s
  obtain rfl : stack = .node (.method m i) :: st := hst
  obtain rfl : lines = some text :: ls := hs
  obtain ⟨_ | x, hitem⟩ := hkind
  · obtain ⟨w, hw, hc, rfl⟩ := id hitem
    obtain ⟨l, ws, hread⟩ := outcome_readLine_of_firstWord hw hc ls k (.node (.method m i) :: st) d
    rw [hread, loadReader.outcome_statement_label _ _ _ hc] at hok
    have htold : outcome (loadReader.tell (.label (.text (Reader.labelName w))) >>= fun _ =>
        loadReader.publishComment) ⟨⟨ls⟩, ⟨some l, w :: ws⟩, .node (.method m i) :: st, d⟩ = (.ok (), t) := hok
    have hlabel := Reader.TellsOnce.tell (r := loadReader) (p := (· = .label (.text (Reader.labelName w)))) rfl
    obtain ⟨hsrc, hstack, e, node?, rfl, he⟩ :=
      tellsOnce_loaded hlabel (fun e he => by rw [he]; rfl) (by rfl) htold
    exact ⟨congrArg Source.lines hsrc, hstack, _, hitem, (Prod.mk.inj he).2.symm⟩
  · obtain ⟨w, c, hw, hc, hdot, hcolon⟩ := id hitem
    obtain ⟨l, ws, hread⟩ := outcome_readLine_of_firstWord hw hc ls k (.node (.method m i) :: st) d
    rw [hread, loadReader.outcome_statement_plain _ _ _ hc hdot hcolon] at hok
    have hears : ∀ e : Event, e.isInstruction → Shape.method.hears e.verb = true := by
      intro e he
      cases e <;> first | rfl | cases he
    obtain ⟨hsrc, hstack, e, node?, he, hdone⟩ :=
      tellsOnce_loaded loadReader.tellsOnce_instruction hears rfl hok
    obtain ⟨x, hx⟩ := onMethod_instruction he hdone
    exact ⟨congrArg Source.lines hsrc, hstack, .code x, hitem, hx⟩

/-- The lines of a body are read one after another. -/
inductive Loads : Session LoadNode Store → List String → Session LoadNode Store → Prop
  | nil (s : Session LoadNode Store) : Loads s [] s
  | cons {s t u : Session LoadNode Store} {text : String} {body : List String}
      {ls : List (Option String)} : s.source.lines = some text :: ls →
      outcome loadReader.readLine s = (.ok (), t) → Loads t body u → Loads s (text :: body) u

theorem Loads.frame_eq {body : List String} (hload : Loads s body t) (hst : s.stack = .node (.method m i) :: st)
    (hi : i < s.world.frames.size) (hkinds : ∀ text ∈ body, ∃ item, Item.Of text item) :
    t.stack = s.stack ∧ t.world.frames.size = s.world.frames.size ∧ ∃ items, Forall₂ Item.Of body items ∧
        t.world.frame i = items.foldl Item.enter (s.world.frame i) := by
  induction hload with
  | nil s => exact ⟨rfl, rfl, [], .nil, rfl⟩
  | @cons s t u text body ls hs hok _ ih =>
    obtain ⟨-, hstack, item, hitem, hworld⟩ :=
      readLine_enters hst hs (hkinds text mem_cons_self) hok
    have hframe := frame_enter s.world hi item
    rw [← hworld] at hframe
    have hsize : t.world.frames.size = s.world.frames.size := by simp [hworld]
    obtain ⟨hstack', hsize', items, hitems, hfinal⟩ := ih (hstack.trans hst) (by omega)
      fun x hx => hkinds x (mem_cons_of_mem _ hx)
    exact ⟨hstack'.trans hstack, hsize'.trans hsize, item :: items, .cons hitem hitems, by rw [hfinal, hframe]; rfl⟩

end Store

end Dalvik
