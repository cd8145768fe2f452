import Dalvik.Proofs.RoundTrip

/-!
# Inner classes

An inner class is written as a block of its class, like every other construct, but with no statement that
ends it. Whatever is written behind it is therefore read as a part of it: reading makes the calls of the
script in which everything behind an inner class has moved to the end of that class (`Script.spill`). No inner
class is left again, and at the end of the source only the innermost class is told its end
(`Script.Layered.conveys`, `Document.ClassTree.visit_spill`). The calls keep their places exactly if every inner
class is the last item of its class (`Document.Items.spill_script`).
-/

namespace Dalvik

open Dalvik.Text Reader Desk Script Listing

variable {sc : Script} {sort : String}

namespace Reader

variable {ν σ : Type} {r : Reader ν σ}

theorem outcome_classHeader_inner {ks : List String} (hks : ∀ k ∈ ks, Access.isKeyword k = true) {name : String}
    (hname : isTypeName name = true) {raw : String} {ws : List String} {st st' : Slots ν} {d d' : σ}
    {node? : Option ν}
    (hsend : ∀ src k, outcome (r.send (.innerClass (.text name) (.int (Access.flags ks)))) ⟨src, k, st, d⟩
      = (.ok node?, ⟨src, k, st', d'⟩)) (src : Source) :
    outcome (r.classHeader true) ⟨src, ⟨some (lineOf raw ws), Listing.directive .classDef :: (ks ++ [name])⟩, st, d⟩
      = (.ok node?, ⟨src, ⟨some (lineOf raw ws), [name]⟩, st', d'⟩) := by
  have hcheck : r.checkDescriptor name = pure () := by
    simp [checkDescriptor, Descriptor.isDescriptor_typeName hname]
  rw [classHeader, atLineEnd, outcome_tryCatch, bind_ok _ (outcome_passKeyword ..),
    bind_ok _ (outcome_accessFlags hks (isKeyword_typeName hname) ..),
    bind_ok _ (Read.outcome_peekWord ..), hcheck, pure_bind, if_pos rfl,
    bind_ok _ (hsend _ _)]
  rfl

theorem Ends.innerClass {raw : String} {ws pending : List String} {slot : Slot ν} {st st' : Slots ν} {d d' : σ}
    (hfield : r.hasShape slot .field = false)
    (h : Ends raw ws (Listing.directive .classDef :: pending) (slot :: st) d
      (r.classHeader true >>= fun node? => Read.push (.ofOption node?)) st' d') :
    Ends raw ws (Listing.directive .classDef :: pending) (slot :: st) d r.statement st' d' := by
  intro src
  rw [outcome_statement_directive _ pending src _ (isBare_directive .classDef).2]
  unfold Reader.directive
  rw [outcome_bind, Read.outcome_peekWord]
  dsimp only
  rw [bind_ok _ (outcome_leaveField r (.inl hfield) src _ st d), if_neg (by decide)]
  exact h src

end Reader

namespace Desk

/-- A class that is recorded, as an open construct. -/
abbrev classSlot (label : String) : Slot Listener :=
  .node (.recorder .classDef label)

/-- The desk after the classes with some labels were told their ends, one after another. -/
def closeAll (d : Desk) (labels : List String) : Desk :=
  labels.foldl (fun d label => d.hear label .close) d

theorem closeAll_append (d : Desk) (labels labels' : List String) :
    d.closeAll (labels ++ labels') = (d.closeAll labels).closeAll labels' :=
  List.foldl_append

theorem Opened.innerClass (name : Document.TypeName) (flags : Document.Flags) :
    Opened .classDef .classDef "inner" (.innerClass (.text name) (.int flags.val)) := by
  have hwords : IsWording [name.1] := .inl (isBare_typeName name.2)
  have hrow : IsRow (directive .classDef ++ " " ++ " ".intercalate (Access.names flags.val) ++ " "
      ++ name.1).toList (headingWords flags .classDef [name.1]) :=
    isRow_of_eq (isWording_heading (Document.isKeyword_names flags) .classDef hwords)
      (by rw [intercalate_heading _ _ (by simp)]; simp)
  refine ⟨rfl, rfl, fun indent => ⟨_, rfl, rfl, rfl, fun pre hpre label st d hd => ?_⟩⟩
  refine hrow.conveys reader_copy? hpre fun raw => .innerClass rfl ?_
  have hheader := @outcome_classHeader_inner _ _ reader _ (Document.isKeyword_names flags) _ name.2 raw
    (headingWords flags .classDef [name.1]) (taped .classDef label st) _ d _ _ fun src k => by
      rw [Access.flags_names flags.lt, outcome_send src k st d (by rfl)]
  refine .bind hheader ?_
  rw [handedOver_of_opens rfl hd]
  exact .of_outcome fun src => rfl

end Desk

namespace Script

/-! ### Calls behind an inner class -/

/-- Makes the calls of a script, and then others at the place where the script ends: within the last inner
class, if there is one. -/
def spillInto : Script → Script → Script
  | done, k => k
  | tell e rest, k => tell e (rest.spillInto k)
  | nest e body rest, k =>
    if e.verb = .innerClass then nest e (body.spillInto (rest.spillInto k)) done
    else nest e body (rest.spillInto k)

/-- The calls of a script if no inner class ends before its class does. -/
def spill (sc : Script) : Script :=
  sc.spillInto done

/-- The number of inner classes. -/
def innerClasses : Script → Nat
  | done => 0
  | tell _ rest => rest.innerClasses
  | nest e body rest =>
    if e.verb = .innerClass then body.innerClasses + rest.innerClasses + 1 else rest.innerClasses

/-- Whether every call of a class can be read back, those of its inner classes included. The flag says whether a
construct waits. -/
def Layered : Script → Bool → Prop
  | done, _ => True
  | tell e rest, waits =>
    Told .classDef e ∧ (settles .classDef e.verb = true ∨ waits = false) ∧ rest.Layered false
  | nest e body rest, _ =>
    ((∃ inner sort, Opened .classDef inner sort e ∧ inner ≠ .classDef ∧ body.Sound inner false) ∨
      (∃ sort, Opened .classDef .classDef sort e ∧ body.Layered false)) ∧ rest.Layered true

theorem Layered.writable {waits : Bool} (h : sc.Layered waits) : sc.Writable .classDef waits := by
  induction sc generalizing waits with
  | done => trivial
  | tell e rest ih => exact ⟨h.1.writable, h.2.1, ih h.2.2⟩
  | nest e body rest ihbody ihrest =>
    obtain ⟨hnest, hrest⟩ := h
    refine ⟨?_, ihrest hrest⟩
    rcases hnest with ⟨inner, sort, hopened, -, hbody⟩ | ⟨sort, hopened, hbody⟩
    · obtain ⟨hears, hnew, hheading⟩ := hopened.writable
      exact ⟨inner, hears, hnew, hheading, hbody.writable⟩
    · obtain ⟨hears, hnew, hheading⟩ := hopened.writable
      exact ⟨.classDef, hears, hnew, hheading, ihbody hbody⟩

theorem verb_eq_innerClass_iff {e : Event} {inner : Shape} (h : Opened .classDef inner sort e) :
    e.verb = .innerClass ↔ inner = .classDef := by
  have hopens := h.opens
  generalize e.verb = v at hopens
  constructor
  · rintro rfl
    exact (congrArg Prod.snd (Option.some.inj hopens)).symm
  · rintro rfl
    cases v <;> first | rfl | cases hopens

section Conclude

variable {label : String} {e : Event} {rest : Script} {d d' : Desk}

theorem outcome_conclude_tell (he : Shape.classDef.hears e.verb = true)
    (h : outcome (rest.conclude (.recorder .classDef label)) (d.hear label e) = (.ok (), d')) :
    outcome ((tell e rest).conclude (.recorder .classDef label)) d = (.ok (), d') := by
  rw [conclude, drive, bind_assoc, bind_ok _ (outcome_visit_recorder d he)]
  exact h

theorem outcome_conclude_nest {inner : Shape} {body : Script} {d₁ : Desk} (ho : Opened .classDef inner sort e)
    (hd : d.declined = [])
    (hbody : outcome (body.conclude (.recorder inner s!"{sort}#{d.recorders}")) (d.hear label e) = (.ok (), d₁))
    (h : outcome (rest.conclude (.recorder .classDef label)) d₁ = (.ok (), d')) :
    outcome ((nest e body rest).conclude (.recorder .classDef label)) d = (.ok (), d') := by
  rw [conclude, drive, bind_assoc, bind_ok _ (outcome_visit_recorder d ho.hears), handedOver_of_opens ho.opens hd]
  have hdrive : ∀ l : Listener, (do body.drive l; let _ ← l.visit .close; rest.drive (.recorder .classDef label))
      = (body.conclude l >>= fun _ => rest.drive (.recorder .classDef label)) := by
    simp [conclude]
  rw [hdrive, bind_assoc, bind_ok _ hbody]
  exact h

end Conclude

/-- **Nothing leaves an inner class.** Reading the lines of a class with its inner classes leaves all of these
open, the last one innermost, and makes the calls of the spilled script but for the ends of the classes. -/
theorem Layered.conveys {sc : Script} {waits : Bool} (h : sc.Layered waits) (indent : Int) (label : String)
    (st : Slots Listener) {d : Desk} (hd : d.declined = []) :
    ∃ top below d', d'.declined = [] ∧ below.length = sc.innerClasses ∧
      reader.ConveysAll (sc.lines .classDef indent) (classSlot label :: st) d ((top :: below).map classSlot ++ st) d' ∧
      ∀ k d'', outcome (k.conclude (.recorder .classDef top)) d' = (.ok (), d'') →
        outcome ((sc.spillInto k).conclude (.recorder .classDef label)) d = (.ok (), d''.closeAll below) := by
  induction sc generalizing waits indent label st d with
  | done => exact ⟨label, [], d, hd, rfl, .nil _ _, fun k d'' hk => hk⟩
  | tell e rest ih =>
    obtain ⟨htold, -, hrest⟩ := h
    obtain ⟨-, s, hs, hconveys⟩ := htold.written indent
    obtain ⟨top, below, d', hd', hlength, hall, hspill⟩ := ih hrest indent label st (d := d.hear label e) (by simp [hd])
    refine ⟨top, below, d', hd', hlength, ?_, fun k d'' hk => outcome_conclude_tell htold.hears (hspill k d'' hk)⟩
    rw [lines, hs]
    refine .cons ?_ hall
    have := hconveys (Sheet.margin (indent + s.deeper)).toList (margin_blank _) label st d
    simpa [Statement.line] using this
  | nest e body rest ihbody ihrest =>
    obtain ⟨⟨inner, sort, hopened, hinner, hbody⟩ | ⟨sort, hopened, hbody⟩, hrest⟩ := h
    · -- a construct that ends: it is conveyed by itself
      have hverb : e.verb ≠ .innerClass := fun he => hinner ((verb_eq_innerClass_iff hopened).mp he)
      have hsound : (nest e body done).Sound .classDef true := ⟨⟨inner, sort, hopened, hinner, hbody⟩, trivial⟩
      obtain ⟨d₁, hdrive, hd₁, hfirst⟩ := hsound.conveys indent label st hd
      obtain ⟨top, below, d', hd', hlength, hall, hspill⟩ := ihrest hrest indent label st hd₁
      refine ⟨top, below, d', hd', ?_, ?_, fun k d'' hk => ?_⟩
      · rw [innerClasses, if_neg hverb]
        exact hlength
      · have hlines : (nest e body rest).lines .classDef indent
            = (nest e body done).lines .classDef indent ++ rest.lines .classDef indent := by
          obtain ⟨h, hheading, -⟩ := hopened.written indent
          simp only [lines, hheading]
          rfl
        rw [hlines]
        exact hfirst.append hall
      · have hconclude : (nest e body (rest.spillInto k)).conclude (.recorder .classDef label)
            = ((nest e body done).drive (.recorder .classDef label) >>= fun _ =>
              (rest.spillInto k).conclude (.recorder .classDef label)) := by
          simp [conclude, drive]
        rw [spillInto, if_neg hverb, hconclude, bind_ok _ hdrive]
        exact hspill k d'' hk
    · -- an inner class: what follows it is conveyed within the innermost class that it leaves open
      have hverb : e.verb = .innerClass := (verb_eq_innerClass_iff hopened).mpr rfl
      obtain ⟨h, hheading, hshape, -, hconveys⟩ := hopened.written indent
      obtain ⟨top₁, below₁, d₁, hd₁, hlength₁, hall₁, hspill₁⟩ := ihbody hbody h.indent s!"{sort}#{d.recorders}"
        (classSlot label :: st) (d := d.hear label e) (by simp [hd])
      obtain ⟨top, below₂, d', hd', hlength₂, hall₂, hspill₂⟩ := ihrest hrest indent top₁
        (below₁.map classSlot ++ classSlot label :: st) hd₁
      refine ⟨top, below₂ ++ (below₁ ++ [label]), d', hd', ?_, ?_, fun k d'' hk => ?_⟩
      · rw [innerClasses, if_pos hverb]
        simp only [List.length_append, List.length_singleton, hlength₁, hlength₂]
        omega
      · have hfirst := hconveys (Sheet.margin indent ++ Sheet.margin h.indent).toList (by
          rw [String.toList_append]
          intro c hc
          exact (List.mem_append.mp hc).elim (margin_blank _ c) (margin_blank _ c)) label st d hd
        have hclosing : closingLines h.shape h.closing h.indent = [] := by
          rw [hshape]
          rfl
        rw [lines, hheading]
        dsimp only
        rw [hclosing, List.append_nil, hshape]
        refine .cons (conveys_block (.cons (by simpa using hfirst) hall₁)) ?_
        simpa using hall₂
      · rw [spillInto, if_pos hverb, closeAll_append, closeAll_append]
        exact outcome_conclude_nest hopened hd (hspill₁ _ _ (hspill₂ k d'' hk)) (by rfl)

end Script

/-! ### Classes with inner classes -/

namespace Document

/-- The items of a class: its members and its inner classes, which have details and items of their own. -/
inductive Items where
  | nil
  | member (m : Member) (rest : Items)
  | inner (name : TypeName) (flags : Flags) (details : List Detail) (body rest : Items)

namespace Items

/-- The calls of items. -/
def script : Items → Script
  | nil => .done
  | member m rest => m.script rest.script
  | inner name flags details body rest =>
    .nest (.innerClass (.text name) (.int flags.val)) (.tells (details.map (·.event)) body.script) rest.script

/-- Whether every inner class is the last item of its class. -/
def InnerLast : Items → Prop
  | nil => True
  | member _ rest => rest.InnerLast
  | inner _ _ _ body rest => body.InnerLast ∧ rest = nil

end Items

theorem Member.script_eq (m : Member) : ∃ e body, (∀ rest, m.script rest = .nest e body rest) ∧ e.verb ≠ .innerClass ∧
      ∃ inner sort, Opened .classDef inner sort e ∧ inner ≠ .classDef ∧ body.Sound inner false := by
  have hsound := sound_members [m] true
  cases m <;> exact ⟨_, _, fun _ => rfl, nofun, hsound.1⟩

theorem layered_tells (details : List Detail) (h : sc.Layered false) :
    (tells (details.map (·.event)) sc).Layered false := by
  induction details with
  | nil => exact h
  | cons x xs ih => exact ⟨.detail x, .inr rfl, ih⟩

theorem spillInto_tells (details : List Detail) (sc k : Script) :
    (tells (details.map (·.event)) sc).spillInto k = .tells (details.map (·.event)) (sc.spillInto k) := by
  induction details with
  | nil => rfl
  | cons x xs ih => exact congrArg (tell x.event) ih

theorem tells_inj {details : List Detail} {sc' : Script} :
    tells (details.map (·.event)) sc = .tells (details.map (·.event)) sc' ↔ sc = sc' := by
  induction details with
  | nil => rfl
  | cons x xs ih => exact ⟨fun h => ih.mp (tell.inj h).2, fun h => by rw [h]⟩

namespace Items

theorem layered (x : Items) (waits : Bool) : x.script.Layered waits := by
  induction x generalizing waits with
  | nil => trivial
  | member m rest ih =>
    obtain ⟨e, body, hscript, -, hopened⟩ := m.script_eq
    rw [script, hscript]
    exact ⟨.inl hopened, ih true⟩
  | inner name flags details body rest ihbody ihrest =>
    exact ⟨.inr ⟨"inner", .innerClass name flags, layered_tells details (ihbody false)⟩, ihrest true⟩

theorem script_eq_done {x : Items} : x.script = .done ↔ x = nil := by
  cases x with
  | nil => exact ⟨fun _ => rfl, fun _ => rfl⟩
  | member m rest =>
    obtain ⟨e, body, hscript, -⟩ := m.script_eq
    rw [script, hscript]
    exact ⟨nofun, nofun⟩
  | inner name flags details body rest => exact ⟨nofun, nofun⟩

theorem spill_script (x : Items) : x.script.spill = x.script ↔ x.InnerLast := by
  unfold spill
  induction x with
  | nil => exact ⟨fun _ => trivial, fun _ => rfl⟩
  | member m rest ih =>
    obtain ⟨e, body, hscript, hverb, -⟩ := m.script_eq
    rw [script, hscript, spillInto, if_neg hverb, InnerLast, ← ih]
    exact ⟨fun h => (nest.inj h).2.2, fun h => by rw [h]⟩
  | inner name flags details body rest ihbody ihrest =>
    rw [script, spillInto, InnerLast, ← ihbody, spillInto_tells]
    constructor
    · intro h
      obtain ⟨-, hbody, hrest⟩ := nest.inj h
      obtain rfl := script_eq_done.mp hrest.symm
      exact ⟨tells_inj.mp hbody, rfl⟩
    · rintro ⟨hbody, rfl⟩
      exact congrArg (fun sc => nest _ (.tells _ sc) .done) hbody

end Items

/-- A class with its details and its items. -/
structure ClassTree where
  name : TypeName
  flags : Flags
  details : List Detail
  items : Items

namespace ClassTree

variable (x : ClassTree)

/-- The class without anything in it. -/
def bare : Document :=
  ⟨x.name, x.flags, [], []⟩

/-- The calls behind the first one. -/
def content : Script :=
  .tells (x.details.map (·.event)) x.items.script

/-- The calls of the class, but for its end. -/
def script : Script :=
  .tell x.bare.header x.content

theorem layered_content : x.content.Layered false :=
  layered_tells x.details (x.items.layered false)

theorem spill_eq_self : x.script.spill = x.script ↔ x.items.InnerLast := by
  have hspill : x.script.spill = .tell x.bare.header (.tells (x.details.map (·.event)) x.items.script.spill) :=
    congrArg (tell x.bare.header) (spillInto_tells x.details x.items.script .done)
  rw [hspill, ← Items.spill_script]
  exact ⟨fun h => tells_inj.mp (tell.inj h).2, fun h => by rw [h]; rfl⟩

/-- A class with inner classes is written, and its listing is read as the spilled calls: all inner classes are
still open when the source ends, and only the innermost class is told its end. -/
theorem visit_spill (indent : Int) (d₀ d : Desk) (src : Source) (k : Cursor) (label : String) :
    ∃ code d₁ top below d₂ k', outcome (x.script.write indent) d₀ = (.ok code, d₁) ∧
      below.length = x.script.innerClasses ∧
      outcome (x.script.spill.conclude (.recorder .classDef label)) { d with declined := [] }
        = (.ok (), d₂.closeAll below) ∧
      outcome (reader.visit (.text code) (some (.recorder .classDef label))) ⟨src, k, [], { d with declined := [] }⟩
        = (.ok (), ⟨⟨[]⟩, k', (top :: below).map classSlot, d₂⟩) := by
  have hwritable : x.script.Writable .classDef false :=
    ⟨⟨rfl, fun _ => ⟨rfl, classHeading x.bare, rfl⟩⟩, .inr rfl, x.layered_content.writable⟩
  obtain ⟨d₁, hwrite⟩ := hwritable.outcome_write indent d₀
  obtain ⟨k₁, hvisit⟩ := outcome_visit_heading x.bare indent (x.content.lines .classDef indent) src k label
    { d with declined := [] }
  obtain ⟨top, below, d₂, -, hlength, hall, hspill⟩ := x.layered_content.conveys indent label []
    (d := Desk.hear { d with declined := [] } label x.bare.header) (by simp)
  rw [List.append_nil] at hall
  obtain ⟨k₂, hbody⟩ := outcome_readBody_of_conveysAll (k := k₁) hall
  have hend : outcome (done.conclude (.recorder .classDef top)) d₂ = (.ok (), d₂.hear top .close) := by
    rfl
  exact ⟨_, d₁, top, below, d₂.hear top .close, k₂, hwrite, hlength,
    outcome_conclude_tell rfl (hspill .done _ hend), hvisit.trans hbody⟩

end ClassTree

end Document

end Dalvik
