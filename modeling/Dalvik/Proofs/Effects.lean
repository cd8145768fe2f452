import Dalvik.Proofs.Outline

/-!
# What a line does to the open constructs

A line that is read does what its role says (`Desk.Effect`), wherever it stands. A statement leaves the stack
as it is, and all that it makes known is noted by the innermost recorder: this is a contract that the reader
keeps on every statement that opens and closes nothing (`Desk.conducts`). A header makes one event known and
puts the recorder that it gets on the stack. An end takes the innermost recorder from the stack and is noted by
it. `Desk.readLine_effect` joins the three.

A field that is left open is a fourth case: a directive that is no annotation and no end takes it from the
stack without a note, and is then read as if the field had never been there (`Desk.outcome_readLine_leaving`).
-/

namespace Dalvik.Desk

open Reader Read Line Reader Role List

variable {e : Event} {s t : Session Listener Desk} {src : Source} {l : Line} {ws : List String} {w : String}
  {role : Role}

/-- Notes of a kind were added to a desk. -/
structure Grows (p : Note → Prop) (d d' : Desk) : Prop where
  notes : ∃ ns, d'.notes = ns ++ d.notes ∧ ∀ n ∈ ns, p n
  recorders : d'.recorders = d.recorders
  declined : d'.declined = d.declined

namespace Grows

variable {p q : Note → Prop} {d d₁ d' : Desk}

theorem refl (d : Desk) : Grows p d d := ⟨⟨[], rfl, by simp⟩, rfl, rfl⟩

theorem trans (h : Grows p d d₁) (h' : Grows p d₁ d') : Grows p d d' := by
  obtain ⟨⟨ns, hns, hp⟩, hr, hdec⟩ := h
  obtain ⟨⟨ms, hms, hp'⟩, hr', hdec'⟩ := h'
  refine ⟨⟨ms ++ ns, by rw [hms, hns, append_assoc], ?_⟩, hr'.trans hr, hdec'.trans hdec⟩
  intro n hn
  rcases mem_append.mp hn with hn | hn
  · exact hp' n hn
  · exact hp n hn

theorem mono (h : Grows p d d') (hpq : ∀ n, p n → q n) : Grows q d d' := by
  obtain ⟨⟨ns, hns, hp⟩, hr, hdec⟩ := h
  exact ⟨⟨ns, hns, fun n hn => hpq n (hp n hn)⟩, hr, hdec⟩

end Grows

theorem opens_eq_none {v : Verb} (h : v.nests = false) : Listener.opens v = none := by
  cases v <;> first | rfl | cases h

theorem hear_eq (he : e.verb.nests = false) (d : Desk) (label : String) :
    d.hear label e = { d with notes := .heard label e none :: d.notes } := by
  simp [hear, opens_eq_none he]

theorem grows_hear {p : Note → Prop} {label : String} (he : e.verb.nests = false) (hp : p (.heard label e none))
    (d : Desk) : Grows p d (d.hear label e) := by
  rw [hear_eq he]
  exact ⟨⟨[.heard label e none], rfl, by simpa using hp⟩, rfl, rfl⟩

/-- The reader of sources that have to be complete: recorders listen, and lines that end too early are
reported. -/
abbrev strict (validate comments : Bool) : Reader Listener Desk :=
  recording ⟨validate, comments, false, "strict"⟩ false

variable {validate comments : Bool} {shape : Shape} {label : String} {st : Slots Listener} {d : Desk} {k : Construct}

/-! ### Statements -/

/-- The stack stays as it is, and the innermost recorder notes what is made known. -/
def steady (shape : Shape) (label : String) (st : List (Slot Listener)) : Contract (Session Listener Desk) where
  holds s := s.stack = .node (.recorder shape label) :: st
  leads s t := t.source.lines <:+ s.source.lines ∧ Grows (Note.Own label) s.world t.world
  admits _ _ := True
  refl _ := ⟨suffix_rfl, .refl _⟩
  trans h h' := ⟨h'.1.trans h.1, h.2.trans h'.2⟩

theorem conducts : (strict validate comments).Conducts (steady shape label st) (· = .recorder shape label) where
  moves s k hs := ⟨hs, suffix_rfl, .refl _⟩
  takes s l ls hs hl := ⟨hs, by simp [hl], .refl _⟩
  shrinks s t hst := hst.1.length_le
  faults f s _ _ := trivial
  ends s _ _ := trivial
  copies s hs := Contract.keptAt_pure hs ()
  fits n rest s hs hst := Slot.node.inj (cons.inj (hst.symm.trans hs)).1
  tells n e s hs hn he := by
    obtain ⟨src, k, _, d⟩ := s
    obtain rfl : _ = _ := hs
    subst hn
    cases hv : shape.hears e.verb with
    | false => exact .of_error (outcome_sendTo_refused src k _ d hv) rfl ⟨suffix_rfl, .refl _⟩ trivial
    | true =>
      exact .of_ok (outcome_sendTo src k _ d hv) rfl ⟨suffix_rfl, grows_hear he ⟨e, he, rfl⟩ d⟩

/-! ### Headers -/

/-- Only words are passed: the stack and the desk stay as they are. -/
def still (outer : List (Slot Listener)) (d : Desk) : Contract (Session Listener Desk) where
  holds s := s.stack = outer ∧ s.world = d
  leads _ _ := True
  admits _ _ := True
  refl _ := trivial
  trans _ _ := trivial

theorem passes (outer : Slots Listener) (d : Desk) : Passes (still outer d) where
  moves _ _ hs := ⟨hs, trivial⟩
  faults _ _ _ _ := trivial

/-- Wherever a step succeeds that is begun with a stack and a desk, its result and the session that it leaves
are as wanted. -/
def Leaves {α : Type} (x : Read Listener Desk α) (outer : List (Slot Listener)) (d : Desk)
    (post : α → Session Listener Desk → Prop) : Prop :=
  ∀ s, s.stack = outer → s.world = d → ∀ a t, outcome x s = (.ok a, t) → post a t

namespace Leaves

variable {α β : Type} {outer : Slots Listener} {x : Read Listener Desk α}
  {k : α → Read Listener Desk β} {post : β → Session Listener Desk → Prop}

theorem bind (hx : (still outer d).Kept x) (hk : ∀ a, Leaves (k a) outer d post) : Leaves (x >>= k) outer d post := by
  intro s hst hd b u e
  obtain ⟨a, t, hxa, hka⟩ := outcome_bind_eq_ok s e
  obtain ⟨hst', hd'⟩ := (hx s ⟨hst, hd⟩).holds_of hxa
  exact hk a t hst' hd' b u hka

theorem onLine (hx : Parallel x x) (hk : ∀ a, Leaves (k a) outer d post) : Leaves (x >>= k) outer d post :=
  bind ((passes outer d).onLine hx) hk

theorem andThen {mid : α → Session Listener Desk → Prop} (hx : Leaves x outer d mid)
    (hk : ∀ a t, mid a t → ∀ b u, outcome (k a) t = (.ok b, u) → post b u) :
    Leaves (x >>= k) outer d post := by
  intro s hst hd b u e
  obtain ⟨a, t, hxa, hka⟩ := outcome_bind_eq_ok s e
  exact hk a t (hx s hst hd a t hxa) b u hka

theorem top {slot : Slot Listener} {k : Slot Listener → Read Listener Desk β}
    (hk : Leaves (k slot) (slot :: st) d post) : Leaves (top >>= k) (slot :: st) d post := by
  rintro ⟨src, cur, _, _⟩ rfl rfl b u e
  exact hk _ rfl rfl b u e

theorem atLineEnd [Inhabited α] {body : Read Listener Desk α} {post : α → Session Listener Desk → Prop}
    (hb : Leaves body outer d post) : Leaves ((strict validate comments).atLineEnd body) outer d post := by
  intro s hst hd a t e
  rw [Reader.atLineEnd, outcome_tryCatch] at e
  rcases hbs : outcome body s with ⟨res, u⟩
  rw [hbs] at e
  cases res with
  | ok b => exact hb s hst hd a t (hbs.trans e)
  | error f =>
    dsimp only at e
    split at e <;> cases e

end Leaves

theorem handedOver_eq (he : e.verb = k.verb) (hd : d.declined = []) :
    Listener.handedOver d e = .recorder k.shape (k.label d) := by
  simp [Listener.handedOver, he, k.opens_verb, hd, Construct.label]

theorem leaves_send (he : e.verb = k.verb) (hd : d.declined = []) :
    Leaves ((strict validate comments).send e) (taped shape label st) d fun node? t =>
      node? = some (.recorder k.shape (k.label d)) ∧ t.stack = taped shape label st ∧ t.world = d.hear label e := by
  rintro ⟨src, cur, _, _⟩ rfl rfl node? t h
  cases hv : shape.hears e.verb with
  | false =>
    rw [send, outcome_bind, outcome_top] at h
    dsimp only at h
    rw [outcome_sendTo_refused src cur _ _ hv] at h
    cases h
  | true =>
    rw [outcome_send src cur st _ hv, handedOver_eq he hd] at h
    cases h
    exact ⟨rfl, rfl, rfl⟩

theorem publishComment_ok (h : outcome (strict validate comments).publishComment s = (.ok (), t))
    (hs : s.stack = taped shape label st) :
    t.stack = s.stack ∧ Grows (fun n => ∃ c, n = .heard label (.trailing c) none) s.world t.world := by
  obtain ⟨src, ⟨line?, ws⟩, _, d⟩ := s
  obtain rfl : _ = _ := hs
  cases line? with
  | none => cases h
  | some l =>
    rw [publishComment, outcome_bind, outcome_currentLine] at h
    cases hc : l.comment? with
    | none =>
      simp only [hc] at h
      cases h
      exact ⟨rfl, .refl _⟩
    | some c =>
      simp only [hc] at h
      rw [outcome_bind] at h
      simp only [Slot.isAbsent] at h
      cases h
      have hgrows : Grows (fun n => ∃ c, n = .heard label (.trailing c) none) d
          (d.hear label (.trailing (.text c))) := grows_hear rfl ⟨.text c, rfl⟩ d
      exact ⟨rfl, hgrows⟩

/-- A construct was opened inside another one: its event was noted, and its recorder is on the stack. -/
def Opens (k : Construct) (label : String) (outer : List (Slot Listener)) (d : Desk)
    (t : Session Listener Desk) : Prop :=
  ∃ e, e.verb = k.verb ∧ t.stack = .node (.recorder k.shape (k.label d)) :: outer ∧
    Grows (Note.Trails label (k.label d)) (d.hear label e) t.world

theorem leaves_openWith {e : Event} {slot : Option Listener → Slot Listener}
    (he : e.verb = k.verb) (hd : d.declined = []) (hslot : ∀ n, slot (some n) = .node n) :
    Leaves (do
      let node? ← (strict validate comments).send e
      (strict validate comments).openWith (slot node?) node?.isSome)
      (taped shape label st) d
      fun _ => Opens k label (taped shape label st) d := by
  refine (leaves_send he hd).andThen ?_
  rintro _ ⟨src, cur, _, _⟩ ⟨rfl, rfl, rfl⟩ _ u h
  rw [hslot, openWith, outcome_bind] at h
  obtain ⟨_, v, hpublish, hrest⟩ := outcome_bind_eq_ok _ h
  cases hrest
  obtain ⟨hstack, hgrows⟩ := publishComment_ok hpublish rfl
  refine ⟨e, he, hstack, hgrows.mono ?_⟩
  rintro n ⟨c, rfl⟩
  exact ⟨_, c, .inr rfl, rfl⟩

theorem opens_of_push (he : e.verb = k.verb) (hs : s.stack = taped shape label st)
    (hw : Grows (fun n => ∃ c, n = .heard label (.trailing c) none) (d.hear label e) s.world)
    (h : outcome (push (.node (.recorder k.shape (k.label d)))) s = (.ok (), t)) :
    Opens k label (taped shape label st) d t := by
  obtain ⟨src, cur, _, _⟩ := s
  obtain rfl : _ = _ := hs
  cases h
  refine ⟨e, he, rfl, hw.mono ?_⟩
  rintro n ⟨c, rfl⟩
  exact ⟨_, c, .inl rfl, rfl⟩

section Headers

variable (hd : d.declined = [])

include hd

theorem leaves_field : Leaves (strict validate comments).field (taped shape label st) d
    fun _ => Opens .field label (taped shape label st) d := by
  refine .atLineEnd (.onLine (parallel_passKeyword rfl _) fun _ => .onLine parallel_accessFlags fun flags =>
    .onLine parallel_nextWord fun word => .onLine (parallel_halves _ _) fun q => .onLine (parallel_checkDescriptor rfl q.2) fun _ =>
      .onLine parallel_hasWord fun more => ?_)
  have rest : ∀ value : Datum, Leaves (do
      if (← top).isAbsent then
        push (.blank .field)
        (strict validate comments).copyLine
      else
        let node? ← (strict validate comments).send
          (.field (.text (Signature.plainName q.1)) flags (.text q.2) (some value))
        (strict validate comments).publishComment
        push (.orBlank .field node?)
        if node?.isNone then (strict validate comments).copyLine)
      (taped shape label st) d
      fun _ => Opens .field label (taped shape label st) d := by
    intro value
    refine .top ((leaves_send (k := .field) rfl hd).andThen ?_)
    rintro _ s ⟨rfl, hs, hw⟩ _ u h
    obtain ⟨_, v, hpublish, hrest⟩ := outcome_bind_eq_ok _ h
    obtain ⟨hstack, hgrows⟩ := publishComment_ok hpublish hs
    obtain ⟨_, z, hpush, hz⟩ := outcome_bind_eq_ok _ hrest
    cases hz
    exact opens_of_push rfl (hstack.trans hs) (hw ▸ hgrows) hpush
  split
  · exact .onLine parallel_lastWord fun _ => rest _
  · exact rest _

theorem leaves_method : Leaves (strict validate comments).method (taped shape label st) d
    fun _ => Opens .method label (taped shape label st) d := by
  refine .atLineEnd (.onLine (parallel_passKeyword rfl _) fun _ => .onLine parallel_accessFlags fun flags =>
    .onLine parallel_peekWord fun word => .onLine (parallel_attempt (Descriptor.ofString_fault _)) fun type => ?_)
  split
  · rintro s - - a t h
    cases h
  · refine .top (.bind ((passes _ d).require _ _) fun _ => ?_)
    refine .onLine (parallel_attempt (Signature.name_fault _)) fun name => ?_
    refine .onLine (parallel_attempt (Signature.parameterTypes_fault _)) fun parameters => ?_
    refine .onLine (parallel_attempt (Signature.returnType_fault _)) fun result => ?_
    exact leaves_openWith rfl hd fun _ => rfl

theorem leaves_annot : Leaves (strict validate comments).annot (taped shape label st) d
    fun _ => Opens .annot label (taped shape label st) d := by
  refine .atLineEnd (.onLine (parallel_passKeyword rfl _) fun _ => .onLine parallel_accessFlags fun flags =>
    .onLine parallel_peekWord fun type => .onLine (parallel_checkDescriptor rfl type) fun _ => .top ?_)
  exact leaves_openWith rfl hd fun _ => rfl

theorem leaves_subAnnot : Leaves (strict validate comments).subAnnot (taped shape label st) d
    fun _ => Opens .subAnnot label (taped shape label st) d := by
  refine .atLineEnd (.onLine (parallel_passKeyword rfl _) fun _ => .onLine parallel_cleaned fun text =>
    .onLine parallel_accessFlags fun flags => .onLine parallel_peekWord fun type =>
      .onLine (parallel_checkDescriptor rfl type) fun _ => .top ?_)
  exact leaves_openWith rfl hd fun _ => rfl

theorem leaves_innerClass : Leaves (do push (.ofOption (← (strict validate comments).classHeader true)))
      (taped shape label st) d
      fun _ => Opens .innerClass label (taped shape label st) d := by
  have header : Leaves ((strict validate comments).classHeader true) (taped shape label st) d
      fun node? t => ∃ e, e.verb = .innerClass ∧ node? = some (.recorder .classDef (Construct.innerClass.label d)) ∧
        t.stack = taped shape label st ∧
        Grows (fun n => ∃ c, n = .heard label (.trailing c) none) (d.hear label e) t.world := by
    refine .atLineEnd (.onLine (parallel_passKeyword rfl _) fun _ => .onLine parallel_accessFlags fun flags =>
      .onLine parallel_peekWord fun name => .onLine (parallel_checkDescriptor rfl name) fun _ => ?_)
    refine (leaves_send (k := .innerClass) rfl hd).andThen ?_
    rintro _ s ⟨rfl, hs, hw⟩ _ u h
    obtain ⟨_, v, hpublish, hrest⟩ := outcome_bind_eq_ok _ h
    obtain ⟨hstack, hgrows⟩ := publishComment_ok hpublish hs
    cases hrest
    exact ⟨_, rfl, rfl, hstack.trans hs, hw ▸ hgrows⟩
  refine header.andThen ?_
  rintro _ t ⟨e, he, rfl, hs, hw⟩ _ u h
  exact opens_of_push he hs hw h

end Headers

/-! ### Lines -/

/-- What a line of a role does where a recorder is innermost. -/
def Effect (shape : Shape) (label : String) (st : List (Slot Listener)) (d : Desk) (t : Session Listener Desk) :
    Role → Prop
  | .tells => t.stack = .node (.recorder shape label) :: st ∧ Grows (Note.Own label) d t.world
  | .opens k => Opens k label (.node (.recorder shape label) :: st) d t
  | .closes => t.stack = st ∧ t.world = d.hear label .close

theorem effect_of_kept {α : Type} {x : Read Listener Desk α} {cur : Cursor} {a : α}
    (hx : (steady shape label st).Kept x) (h : outcome x ⟨src, cur, taped shape label st, d⟩ = (.ok a, t)) :
    Effect shape label st d t .tells := by
  have hkept := hx ⟨src, cur, taped shape label st, d⟩ rfl
  exact ⟨hkept.holds_of h, (hkept.leads_of h).2⟩

/-- The end of a construct is noted by its recorder, which leaves the stack. The ends of local variables and
parameters do nothing. -/
theorem outcome_close {l : Line} {w : String} (hlast : l.words.getLast? = some w) (src : Source)
    (ws : List String) :
    outcome (strict validate comments).close ⟨src, ⟨some l, ws⟩, taped shape label st, d⟩
      = (.ok (), if w = Keyword.localVar.text ∨ w = Keyword.param.text
          then ⟨src, ⟨some l, ws⟩, taped shape label st, d⟩
          else ⟨src, ⟨some l, ws⟩, st, d.hear label .close⟩) := by
  rw [close, bind_ok _ (outcome_lastWord src ws _ d hlast)]
  by_cases hw : w = Keyword.localVar.text ∨ w = Keyword.param.text
  · simp only [Bool.or_eq_true, beq_iff_eq, hw, if_true]
    rfl
  · simp only [Bool.or_eq_true, beq_iff_eq, hw, if_false]
    rw [outcome_bind, outcome_pop]
    dsimp only
    rfl

theorem close_effect
    (h : outcome (strict validate comments).close ⟨src, ⟨some l, ws⟩, taped shape label st, d⟩ = (.ok (), t)) :
    Effect shape label st d t
      (if l.words.getLast? == some Keyword.localVar.text || l.words.getLast? == some Keyword.param.text
        then .tells else .closes) := by
  cases hlast : l.words.getLast? with
  | none =>
    have hnone : outcome (lastWord : Read Listener Desk String) ⟨src, ⟨some l, ws⟩, taped shape label st, d⟩
          = (.error .noElement, ⟨src, ⟨some l, ws⟩, taped shape label st, d⟩) := by
      simp [lastWord, outcome_bind, Cursor.last, hlast]
    rw [close, bind_error _ hnone] at h
    cases h
  | some w =>
    rw [outcome_close hlast] at h
    by_cases hw : w = Keyword.localVar.text ∨ w = Keyword.param.text
    · cases h
      simp only [Option.some_beq_some, Bool.or_eq_true, beq_iff_eq, hw, if_true]
      exact ⟨rfl, .refl d⟩
    · cases h
      simp only [Option.some_beq_some, Bool.or_eq_true, beq_iff_eq, hw, if_false]
      exact ⟨rfl, rfl⟩

theorem eq_of_ofName? {name : String} {dir : Directive} (h : Directive.ofName? name = some dir)
    (hdir : dir = .annot ∨ dir = .close) : name = Keyword.annot.text ∨ name = Keyword.close.text := by
  obtain ⟨front, back, hby, -⟩ := lookup_eq_some_iff.mp h
  have hmem : (String.ofList (name.toList.map fun c => if c == '-' then '_' else c), dir) ∈ Directive.byName := by
    simp [hby]
  have hknown : ∀ p ∈ Directive.byName, p.2 = .annot ∨ p.2 = .close →
      p.1 = Keyword.annot.text ∨ p.1 = Keyword.close.text := by decide
  have hunder : ∀ s ∈ [Keyword.annot.text, Keyword.close.text], '_' ∉ s.toList := by decide
  have hname : ∀ s ∈ [Keyword.annot.text, Keyword.close.text],
      String.ofList (name.toList.map fun c => if c == '-' then '_' else c) = s → name = s := by
    intro s hs heq
    have hlist : name.toList.map (fun c => if c == '-' then '_' else c) = s.toList := by
      rw [← heq, String.toList_ofList]
    have hplain : ∀ c ∈ name.toList, (if c == '-' then '_' else c) = c := by
      intro c hc
      split
      · rename_i hdash
        have : '_' ∈ s.toList := by
          rw [← hlist]
          exact mem_map.mpr ⟨c, hc, by simp [hdash]⟩
        exact absurd this (hunder s hs)
      · rfl
    rw [map_congr_left hplain, map_id'] at hlist
    exact String.toList_inj.mp hlist
  rcases hknown _ hmem hdir with heq | heq
  · exact .inl (hname _ (by simp) heq)
  · exact .inr (hname _ (by simp) heq)

theorem directive_effect (hd : d.declined = []) (n : Nat) (hfield : shape ≠ .field ∨ role = .opens .annot)
    (hrole : ofDirective l.words.getLast? w = some role)
    (h : outcome ((strict validate comments).directive (n + 1)) ⟨src, ⟨some l, w :: ws⟩, taped shape label st, d⟩ = (.ok (), t)) :
    Effect shape label st d t role := by
  have hc := @conducts validate comments shape label st
  unfold directive at h
  rw [outcome_bind, outcome_peekWord] at h
  dsimp only at h
  unfold ofDirective at hrole
  dsimp only at hrole
  generalize String.ofList (w.toList.drop 1) = name at h hrole
  have hstay : shape ≠ .field ∨ name = Keyword.annot.text ∨ name = Keyword.close.text := by
    refine hfield.imp_right fun hopens => ?_
    subst hopens
    split at hrole
    · cases hrole
    · split at hrole
      case h_3 hname => exact eq_of_ofName? hname (.inl rfl)
      case h_5 hname => exact eq_of_ofName? hname (.inr rfl)
      all_goals cases hrole
  rw [bind_ok _ (outcome_leaveField src _ st d hstay)] at h
  by_cases himpl : name = Keyword.implements.text
  · subst himpl
    obtain rfl : tells = role := Option.some.inj hrole
    exact effect_of_kept (hc.accord.interface (b := true)).kept h
  rw [if_neg (by simpa using himpl)] at h
  by_cases hclass : name = Keyword.classDef.text
  · subst hclass
    obtain rfl : opens .innerClass = role := Option.some.inj hrole
    exact leaves_innerClass hd _ rfl rfl () t h
  rw [if_neg (by simpa using hclass)] at h hrole
  cases hdir : Directive.ofName? name with
  | none =>
    simp only [hdir] at h
    cases h
  | some dir =>
    simp only [hdir] at h hrole
    cases hnests : dir.nests with
    | false =>
      cases dir <;> cases hnests <;> cases hrole <;> exact effect_of_kept (hc.simpleDirective rfl) h
    | true =>
      cases dir with
      | field =>
        obtain rfl : opens .field = role := Option.some.inj hrole
        exact leaves_field hd _ rfl rfl () t h
      | method =>
        obtain rfl : opens .method = role := Option.some.inj hrole
        exact leaves_method hd _ rfl rfl () t h
      | annot =>
        obtain rfl : opens .annot = role := Option.some.inj hrole
        exact leaves_annot hd _ rfl rfl () t h
      | subAnnot =>
        obtain rfl : opens .subAnnot = role := Option.some.inj hrole
        exact leaves_subAnnot hd _ rfl rfl () t h
      | close =>
        obtain rfl := Option.some.inj hrole
        exact close_effect h
      | _ => cases hnests

theorem value_effect (hd : d.declined = []) (n : Nat) (hrole : ofValue l.words.getLast? ws = some role)
    (h : outcome ((strict validate comments).value (n + 2)) ⟨src, ⟨some l, w :: ws⟩, taped .annot label st, d⟩ = (.ok (), t)) :
    Effect .annot label st d t role := by
  have hc := @conducts validate comments .annot label st
  unfold value at h
  rw [outcome_bind, outcome_nextWord] at h
  dsimp only at h
  rcases ws with _ | ⟨a, _ | ⟨v, rest⟩⟩
  · cases h
  · cases h
  · rw [outcome_bind, outcome_nextWord] at h
    dsimp only at h
    rw [outcome_bind] at h
    obtain ⟨c, u, hchar, hrest⟩ := outcome_bind_eq_ok _ h
    cases hv : v.toList.head? with
    | none => simp [firstChar, hv] at hchar
    | some c' =>
      rw [outcome_firstChar hv] at hchar
      cases hchar
      rw [ofValue, hv] at hrole
      by_cases hdot : c = '.'
      · rw [if_pos (by simp [hdot])] at hrest hrole
        exact directive_effect hd n (.inl (by decide)) hrole hrest
      · rw [if_neg (by simpa using hdot)] at hrest hrole
        obtain rfl := Option.some.inj hrole
        exact effect_of_kept (Accord.plainValue (b := true) hc.loops w).kept hrest

theorem statement_effect (hd : d.declined = []) (hne : l.cleaned ≠ "") (hfield : shape ≠ .field ∨ role = .opens .annot)
    (hrole : l.role shape = some role)
    (h : outcome (strict validate comments).statement ⟨src, ⟨some l, l.words⟩, taped shape label st, d⟩ = (.ok (), t)) :
    Effect shape label st d t role := by
  have hc := @conducts validate comments shape label st
  unfold Line.role at hrole
  rw [if_neg hne] at hrole
  generalize hws : l.words = words at h hrole
  match words with
  | [] => cases h
  | w :: ws =>
    dsimp only at hrole
    cases hw : w.toList.head? with
    | none =>
      have hfault : outcome (firstChar w : Read Listener Desk Char) ⟨src, ⟨some l, w :: ws⟩, taped shape label st, d⟩
            = (.error .noElement, ⟨src, ⟨some l, w :: ws⟩, taped shape label st, d⟩) := by
        simp [firstChar, hw]
      rw [statement, outcome_bind, outcome_peekWord] at h
      dsimp only at h
      rw [bind_error _ hfault] at h
      cases h
    | some c =>
      rw [hw] at hrole
      by_cases hdot : c = '.'
      · subst hdot
        rw [outcome_statement_directive _ ws src (some l) hw] at h
        rw [if_pos rfl, ← hws] at hrole
        exact directive_effect hd _ hfield hrole h
      rw [if_neg (by simpa using hdot)] at hrole
      by_cases hcolon : c = ':'
      · subst hcolon
        rw [outcome_statement_label _ ws src (some l) hw] at h
        obtain rfl := Option.some.inj hrole
        exact effect_of_kept (hc.accord.label (b := true)).kept h
      rw [if_neg (by simpa using hcolon)] at hrole
      rw [outcome_statement_plain _ ws src (some l) hw hdot hcolon, hasShape_recorder] at h
      cases shape with
      | annot =>
        rw [← hws] at hrole
        exact value_effect hd _ hrole h
      | method =>
        obtain rfl := Option.some.inj hrole
        exact effect_of_kept (hc.accord.instruction (b := true)).kept h
      | classDef | field => cases h

/-- A directive that is neither an annotation nor an end: a field that is open ends there. -/
def LeavesField (l : Line) : Prop :=
  ∃ w ws, l.words = w :: ws ∧ w.toList.head? = some '.' ∧
    String.ofList (w.toList.drop 1) ≠ Keyword.annot.text ∧ String.ofList (w.toList.drop 1) ≠ Keyword.close.text

section Lines

variable {line : String} (rest : Lines) (cur : Cursor)

theorem ofString_ofText (text : String) : ofString text = .ok (ofText text) := by
  obtain ⟨l, hl⟩ := ofString_ok text
  rw [ofText, hl]

theorem outcome_readLine_blank (hplain : IsPlain line) (hblank : (ofText line).cleaned = "")
    (st : Slots Listener) (d : Desk) :
    outcome (strict validate comments).readLine ⟨⟨some line :: rest⟩, cur, st, d⟩
      = (.ok (), ⟨⟨rest⟩, ⟨some (ofText line), (ofText line).words⟩, st, d⟩) := by
  rw [readLine, bind_ok _ ((strict validate comments).outcome_nextLine hplain.not_remark
    hplain.ne_empty (ofString_ofText line) rest cur st d), outcome_bind, outcome_currentLine]
  simp only [hblank]
  rfl

/-- A line that is read does what its role says. In a field that is a blank line, or the header of an
annotation. -/
theorem readLine_effect (hd : d.declined = []) (hplain : IsPlain line) (hrole : (ofText line).role shape = some role)
    (hfield : shape ≠ .field ∨ (ofText line).cleaned = "" ∨ role = .opens .annot)
    (h : outcome (strict validate comments).readLine ⟨⟨some line :: rest⟩, cur, taped shape label st, d⟩ = (.ok (), t)) :
    Effect shape label st d t role := by
  by_cases hblank : (ofText line).cleaned = ""
  · rw [outcome_readLine_blank rest cur hplain hblank] at h
    cases h
    rw [Line.role, if_pos hblank] at hrole
    obtain rfl := Option.some.inj hrole
    exact ⟨rfl, .refl d⟩
  · rw [outcome_readLine _ hplain.not_remark hplain.ne_empty (ofString_ofText line) hblank] at h
    exact statement_effect hd hblank (hfield.imp_right fun hor => hor.resolve_left hblank) hrole h

theorem outcome_readLine_directive (hplain : IsPlain line) (hwords : (ofText line).words = w :: ws)
    (hw : w.toList.head? = some '.') (st : Slots Listener) (d : Desk) :
    outcome (strict validate comments).readLine ⟨⟨some line :: rest⟩, cur, st, d⟩
      = outcome ((strict validate comments).directive (2 * (w :: ws).length + 2))
          ⟨⟨rest⟩, ⟨some (ofText line), w :: ws⟩, st, d⟩ := by
  have hne : w ≠ "" := by
    rintro rfl
    cases hw
  have hcleaned := cleaned_ne_empty (ofString_ofText line) (by rw [hwords]; rfl) hne
  rw [outcome_readLine _ hplain.not_remark hplain.ne_empty (ofString_ofText line) hcleaned, hwords,
    outcome_statement_directive _ ws _ _ hw]

theorem outcome_readLine_end {k : Construct} (hend : IsEnd k line) (st : Slots Listener) (d : Desk) :
    outcome (strict validate comments).readLine ⟨⟨some line :: rest⟩, cur, taped shape label st, d⟩
      = (.ok (), ⟨⟨rest⟩, ⟨some (ofText line), (ofText line).words⟩, st, d.hear label .close⟩) := by
  obtain ⟨w, ws, hwords⟩ : ∃ w ws, (ofText line).words = w :: ws := by
    cases hwords : (ofText line).words with
    | nil => simpa [hwords] using hend.opening
    | cons w ws => exact ⟨w, ws, rfl⟩
  obtain rfl : w = "." ++ Keyword.close.text := by simpa [hwords] using hend.opening
  have hclosing : ¬ (k.closing.text = Keyword.localVar.text ∨ k.closing.text = Keyword.param.text) := by
    cases k <;> decide
  rw [outcome_readLine_directive rest cur hend.plain hwords (by decide), directive, outcome_bind, outcome_peekWord]
  dsimp only
  rw [bind_ok _ (outcome_leaveField _ _ st d (.inr (.inr (by decide))))]
  have hclose := @outcome_close validate comments shape label st d _ _ hend.closing ⟨rest⟩
    (("." ++ Keyword.close.text) :: ws)
  rw [if_neg hclosing] at hclose
  rw [hwords]
  exact hclose

theorem outcome_readLine_leaving (hplain : IsPlain line) (hleaves : LeavesField (ofText line))
    (field owner : String) (st : Slots Listener) (d : Desk) :
    outcome (strict validate comments).readLine ⟨⟨some line :: rest⟩, cur,
        .node (.recorder .field field) :: taped .classDef owner st, d⟩
      = outcome (strict validate comments).readLine ⟨⟨some line :: rest⟩, cur, taped .classDef owner st, d⟩ := by
  obtain ⟨w, ws, hwords, hw, hannot, hclose⟩ := hleaves
  have hleave : outcome ((strict validate comments).leaveField (String.ofList (w.toList.drop 1)))
      ⟨⟨rest⟩, ⟨some (ofText line), w :: ws⟩, .node (.recorder .field field) :: taped .classDef owner st, d⟩
      = (.ok (), ⟨⟨rest⟩, ⟨some (ofText line), w :: ws⟩, taped .classDef owner st, d⟩) := by
    rw [leaveField, outcome_bind, outcome_top]
    dsimp only
    simp only [Bool.and_eq_true, bne_iff_ne, ne_eq, hannot, hclose, not_false_eq_true]
    rfl
  rw [outcome_readLine_directive rest cur hplain hwords hw, outcome_readLine_directive rest cur hplain hwords hw,
    directive, outcome_bind, outcome_bind, outcome_peekWord, outcome_peekWord]
  dsimp only
  rw [bind_ok _ hleave, bind_ok _ (outcome_leaveField _ _ st d (.inl (by decide)))]

theorem outcome_remark (l : Line) (src : Source) (ws : List String) (st : Slots Listener) (d : Desk) :
    ∃ d', outcome (strict validate comments).remark ⟨src, ⟨some l, ws⟩, taped shape label st, d⟩
      = (.ok (), ⟨src, ⟨some l, ws⟩, taped shape label st, d'⟩) ∧ Grows (Note.Own label) d d' := by
  cases comments with
  | false => exact ⟨d, rfl, .refl d⟩
  | true =>
    refine ⟨d.hear label (.comment (l.comment?.elim .absent .text)), ?_, grows_hear rfl ⟨_, rfl, rfl⟩ d⟩
    have hwanted : (strict validate true).options.comments = true := rfl
    rw [remark, outcome_bind, outcome_top]
    simp only [Slot.isAbsent, Bool.false_eq_true, if_false]
    rw [if_pos hwanted, outcome_bind, outcome_currentLine]
    dsimp only
    cases l.comment? <;> rfl

variable (hremark : isRemark line = true) (st : Slots Listener) (d : Desk)

include hremark

theorem outcome_nextLine_remark : ∃ cur' d', outcome (strict validate comments).nextLine
        ⟨⟨some line :: rest⟩, cur, taped shape label st, d⟩
      = outcome (strict validate comments).nextLine
          ⟨⟨rest⟩, cur', taped shape label st, d'⟩ ∧ Grows (Note.Own label) d d' := by
  have hne : line.isEmpty = false := by
    cases hempty : line.isEmpty with
    | false => rfl
    | true =>
      rw [String.isEmpty_iff.mp hempty] at hremark
      cases hremark
  have hreset : cur.reset line = .ok ⟨some (ofText line), (ofText line).words⟩ := by
    simp [Cursor.reset, hne, ofString_ofText, Except.map]
  have hadvance := outcome_advance_some line rest cur (taped shape label st) d
  rw [hreset] at hadvance
  obtain ⟨d', hnoted, hgrows⟩ := @outcome_remark validate comments shape label (ofText line) ⟨rest⟩
    (ofText line).words st d
  refine ⟨⟨some (ofText line), (ofText line).words⟩, d', ?_, hgrows⟩
  rw [nextLine, outcome_bind, outcome_bind, outcome_get, outcome_get]
  dsimp only [length_cons]
  rw [nextLineWithin, bind_ok _ hadvance]
  simp only [hremark, if_true]
  rw [bind_ok _ hnoted]

theorem outcome_readLine_remark : ∃ cur' d', outcome (strict validate comments).readLine
        ⟨⟨some line :: rest⟩, cur, taped shape label st, d⟩
      = outcome (strict validate comments).readLine
          ⟨⟨rest⟩, cur', taped shape label st, d'⟩ ∧ Grows (Note.Own label) d d' := by
  obtain ⟨cur', d', hnext, hgrows⟩ := outcome_nextLine_remark rest cur hremark st d
  exact ⟨cur', d', by rw [readLine, outcome_bind, outcome_bind, hnext], hgrows⟩

end Lines

end Dalvik.Desk
