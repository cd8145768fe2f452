import Dalvik.Proofs.Lines
import Dalvik.Proofs.Properties

/-!
# Which annotations are read as they stand

`Properties.Faithful` names the bodies of annotations that are told as they stand: values that hold neither a
comment mark nor an opening brace and are one word, and lists that are not empty and whose items hold no comment mark, no comma and
no closing brace. Any other property strays (`Desk.Strays`): the first call that its line makes, if it makes one at
all, is not the call that it stands for. Since calls are never taken back (`Desk.governs_mounting`), an annotation is
read with its own calls exactly if its body is faithful; and only such a body comes back when it is written and read
again.
-/

namespace Dalvik

open Dalvik.Text Reader List Contract Listener Line Event Read

variable {c : Char} {p : Char → Bool} {s t : Session Listener Desk} {notes : List Note} {tail type : String}
  {res : Except Fault Unit}

/-! ### The members of a list -/

namespace Text

theorem cutAt_ne_nil (sep : List Char) (skip : Nat) (part s : List Char) : cutAt sep skip part s ≠ [] := by
  induction s generalizing skip part with
  | nil => cases skip <;> simp [cutAt]
  | cons c s ih =>
    cases skip with
    | zero =>
      rw [cutAt]
      split
      · simp
      · exact ih 0 (c :: part)
    | succ skip =>
      exact ih skip part

theorem mem_cutAt {part s p : List Char} (hp : p ∈ cutAt [c] 0 part s) (hpart : c ∉ part) :
    c ∉ p ∧ ∀ e ∈ p, e ∈ part ∨ e ∈ s := by
  induction s generalizing part with
  | nil =>
    obtain rfl : p = part.reverse := by simpa [cutAt] using hp
    exact ⟨by simpa using hpart, fun e he => .inl (by simpa using he)⟩
  | cons a s ih =>
    rw [cutAt] at hp
    split at hp
    · rcases mem_cons.mp hp with rfl | hp
      · exact ⟨by simpa using hpart, fun e he => .inl (by simpa using he)⟩
      · obtain ⟨hfree, hmem⟩ := ih hp (by simp)
        exact ⟨hfree, fun e he => .inr (mem_cons_of_mem _ (by simpa using hmem e he))⟩
    · rename_i hne
      have hca : c ≠ a := by
        rintro rfl
        exact hne (by simp)
      obtain ⟨hfree, hmem⟩ := ih hp (by simp [hca, hpart])
      refine ⟨hfree, fun e he => ?_⟩
      rcases hmem e he with he | he
      · rcases mem_cons.mp he with rfl | he
        · exact .inr (.head _)
        · exact .inl he
      · exact .inr (.tail _ he)

theorem dropBoth_append {p : Char → Bool} {pre text post : List Char} (hpre : ∀ c ∈ pre, p c = true)
    (hpost : ∀ c ∈ post, p c = true) {c : Char} (hhead : text.head? = some c) (hc : p c = false)
    (hlast : ∀ c, text.getLast? = some c → p c = false) : dropBoth p (pre ++ text ++ post) = text := by
  have hfirst : ∀ e, (text ++ post).head? = some e → p e = false := by
    intro e he
    rw [head?_append, hhead] at he
    exact Option.some.inj he ▸ hc
  rw [dropBoth, append_assoc, dropStart_append hpre hfirst, dropEnd_append hpost hlast]

end Text

namespace Properties

theorem replicate_blank (n : Nat) : ∀ c ∈ replicate n ' ', isBlank c = true := by
  intro c hc
  obtain rfl := (mem_replicate.mp hc).2
  decide

theorem parts_items (left right : Nat) {xs : List Scalar} (hne : xs ≠ []) (hxs : ∀ x ∈ xs, ',' ∉ x.text.toList) :
    (parts [','] (replicate left ' ' ++ (", ".intercalate (xs.map (·.text))).toList
      ++ replicate right ' ')).map (fun p => String.ofList (dropBoth isBlank p)) = xs.map (·.text) := by
  induction xs generalizing left with
  | nil => exact absurd rfl hne
  | cons x xs ih =>
    have hcomma := hxs x mem_cons_self
    obtain ⟨⟨c, hhead, hblank, -⟩, hlast⟩ := x.ends
    cases xs with
    | nil =>
      have hparts : parts [','] (replicate left ' ' ++ x.text.toList ++ replicate right ' ')
          = [replicate left ' ' ++ x.text.toList ++ replicate right ' '] :=
        cutAt_of_find? (find?_eq_none (by simp [hcomma])) []
      rw [map_singleton, String.intercalate_singleton, hparts, map_singleton,
        dropBoth_append (replicate_blank left) (replicate_blank right) hhead hblank hlast, String.ofList_toList]
    | cons y ys =>
      have htext : replicate left ' ' ++ (", ".intercalate ((x :: y :: ys).map (·.text))).toList
          ++ replicate right ' ' = (replicate left ' ' ++ x.text.toList)
            ++ ',' :: (replicate 1 ' ' ++ (", ".intercalate ((y :: ys).map (·.text))).toList
              ++ replicate right ' ') := by
        simp [String.intercalate_cons_cons]
      have hparts : parts [','] (replicate left ' ' ++ (", ".intercalate ((x :: y :: ys).map (·.text))).toList
          ++ replicate right ' ') = (replicate left ' ' ++ x.text.toList)
            :: parts [','] (replicate 1 ' ' ++ (", ".intercalate ((y :: ys).map (·.text))).toList
              ++ replicate right ' ') := by
        rw [htext]
        exact cutAt_append (by simp [hcomma]) [] _
      have hword := @dropBoth_append isBlank (replicate left ' ') x.text.toList [] (replicate_blank left)
        (by simp) c hhead hblank hlast
      rw [append_nil] at hword
      rw [hparts, map_cons, ih 1 (by simp) fun z hz => hxs z (mem_cons_of_mem _ hz), hword, String.ofList_toList]
      rfl

theorem members_eq_iff (left right : Nat) (xs : List Scalar) : members left right (xs.map (·.text)) = xs.map (·.text) ↔
      xs ≠ [] ∧ ∀ x ∈ xs, ',' ∉ x.text.toList ∧ '\x7d' ∉ x.text.toList := by
  constructor
  · intro h
    refine ⟨?_, fun x hx => ?_⟩
    · rintro rfl
      have hnil : parts [','] _ = [] := map_eq_nil_iff.mp h
      exact cutAt_ne_nil _ _ _ _ hnil
    · have hmem : x.text ∈ members left right (xs.map (·.text)) := by
        rw [h]
        exact mem_map.mpr ⟨x, hx, rfl⟩
      obtain ⟨p, hp, hpx⟩ := mem_map.mp hmem
      obtain ⟨hcomma, hchars⟩ := mem_cutAt hp (by simp)
      rw [← hpx, String.toList_ofList]
      refine ⟨fun hc => hcomma (mem_of_mem_dropBoth hc), fun hc => ?_⟩
      rcases hchars _ (mem_of_mem_dropBoth hc) with hc | hc
      · cases hc
      · simpa using all_eq_true.mp all_takeWhile _ hc
  · rintro ⟨hne, hxs⟩
    have hitems := not_mem_intercalate_comma (c := '\x7d') (by decide) (by decide)
      (forall_mem_map.mpr fun x hx => (hxs x hx).2)
    have hbrace : '\x7d' ∉ replicate left ' ' ++ (", ".intercalate (xs.map (·.text))).toList
        ++ replicate right ' ' := by simpa using hitems
    rw [members, takeWhile_eq_self_iff.mpr fun c hc => bne_iff_ne.mpr (ne_of_mem_of_not_mem hc hbrace)]
    exact parts_items left right hne fun x hx => (hxs x hx).1

/-- Bodies that are told as they stand. -/
def Faithful : Properties → Prop
  | done => True
  | value _ v rest => ('#' ∉ v.1.text.toList ∧ '\x7b' ∉ v.1.text.toList ∧ v.1.IsWhole) ∧ rest.Faithful
  | list _ _ _ items rest => (items ≠ [] ∧ ∀ x ∈ items, '#' ∉ x.text.toList ∧ ',' ∉ x.text.toList ∧
      '\x7d' ∉ x.text.toList) ∧ rest.Faithful
  | constant _ _ _ _ _ => False
  | nested _ _ _ _ _ => False

theorem Faithful.heard_eq {b : Properties} (h : b.Faithful) : b.Legible ∧ b.heard = b.script := by
  induction b with
  | done => exact ⟨trivial, rfl⟩
  | value name v rest ih =>
    obtain ⟨hlegible, heq⟩ := ih h.2
    exact ⟨⟨h.1, hlegible⟩, by rw [heard, script, heq]⟩
  | list name left right items rest ih =>
    obtain ⟨⟨hne, hitems⟩, hrest⟩ := h
    obtain ⟨hlegible, heq⟩ := ih hrest
    have hmembers := (members_eq_iff left right items).mpr ⟨hne, fun x hx => (hitems x hx).2⟩
    exact ⟨⟨fun x hx => (hitems x hx).1, hlegible⟩, by rw [heard, script, heq, hmembers]⟩
  | constant => cases h
  | nested => cases h

end Properties

/-! ### Calls are never taken back -/

namespace Desk

/-- Lines are only taken from the source, and notes are only added. -/
def mounting : Contract (Session Listener Desk) where
  holds s := ∀ slot ∈ s.stack, Recorded slot
  leads s t := t.source.lines.length ≤ s.source.lines.length ∧ s.world.notes <:+ t.world.notes
  admits _ _ := True
  refl _ := ⟨Nat.le_refl _, suffix_rfl⟩
  trans h h' := ⟨Nat.le_trans h'.1 h.1, h.2.trans h'.2⟩

theorem sendTo_mounting {slot : Slot Listener} (hslot : Recorded slot) (e : Event) (hs : mounting.holds s) :
    mounting.KeptAt (reader.sendTo slot e) s := by
  obtain ⟨src, k, st, d⟩ := s
  cases slot with
  | absent => exact .of_error rfl hs (mounting.refl _) trivial
  | blank shape =>
    cases hv : shape.hears e.verb with
    | true =>
      have hsend : outcome (reader.sendTo (.blank shape) e) ⟨src, k, st, d⟩ = (.ok none, ⟨src, k, st, d⟩) := by
        simp [Reader.sendTo, Reader.require, Reader.hears, hv]
      exact .of_ok hsend hs (mounting.refl _)
    | false =>
      have hsend : outcome (reader.sendTo (.blank shape) e) ⟨src, k, st, d⟩
          = (.error .noOperation, ⟨src, k, st, d⟩) := by
        simp [Reader.sendTo, Reader.require, Reader.hears, hv]
      exact .of_error hsend hs (mounting.refl _) trivial
  | node n =>
    obtain ⟨shape, label, rfl⟩ := hslot n rfl
    cases hv : shape.hears e.verb with
    | false => exact .of_error (outcome_sendTo_refused src k st d hv) hs (mounting.refl _) trivial
    | true => exact .of_ok (outcome_sendTo src k st d hv) hs ⟨Nat.le_refl _, suffix_hear d label e⟩

theorem governs_mounting : reader.Governs mounting fun n => ∃ shape label, n = .recorder shape label where
  moves s k hs := ⟨hs, mounting.refl _⟩
  faults _ _ _ _ := trivial
  takes s l ls hs hl := ⟨hs, by simp [hl], suffix_rfl⟩
  shrinks _ _ hst := hst.1
  ends _ _ _ := trivial
  fits n rest s hs hst := hs (.node n) (by simp [hst]) n rfl
  copies s hs := keptAt_pure hs ()
  opens slot s hs hslot := ⟨by
    intro x hx
    rcases mem_cons.mp hx with rfl | hx
    · exact hslot
    · exact hs x hx, mounting.refl _⟩
  closes slot rest s hs hst := ⟨fun x hx => hs x (by simp [hst, hx]), mounting.refl _⟩
  delivers n e s hs hn := sendTo_mounting (fun _ hm => Slot.node.inj hm ▸ hn) e hs
  breeds n e s t m hs hn he := (governs .standard false).breeds n e s t m hs hn he

theorem suffix_of_reads (h : reader.Reads s t) (hs : mounting.holds s) : s.world.notes <:+ t.world.notes := by
  induction h with
  | refl s => exact suffix_rfl
  | line hl _ ih =>
    have hkept := governs_mounting.readLine _ hs
    exact (hkept.leads_of hl).2.trans (ih (hkept.holds_of hl))

variable {label : String} {e : Event}

theorem visit_recorder_ok {shape : Shape} {d d' : Desk} {l : Listener}
    (h : outcome ((recorder shape label).visit e) d = (.ok l, d')) :
    l = handedOver d e ∧ d' = d.hear label e := by
  cases hv : shape.hears e.verb with
  | true =>
    rw [outcome_visit_recorder d hv] at h
    cases h
    exact ⟨rfl, rfl⟩
  | false =>
    have hears : (recorder shape label).hears e.verb = false := by
      simpa [Listener.hears, Listener.shape?] using hv
    rw [Listener.visit, hears] at h
    cases h

section Drive

variable {sc body : Script} {e : Event} {shape : Shape} {label : String} {d d' : Desk}

theorem drive_tell_ok (h : outcome ((Script.tell e sc).drive (.recorder shape label)) d = (.ok (), d')) :
    outcome (sc.drive (.recorder shape label)) (d.hear label e) = (.ok (), d') := by
  obtain ⟨l, d₁, hvisit, hrest⟩ := outcome_bind_eq_ok _ h
  obtain ⟨-, rfl⟩ := visit_recorder_ok hvisit
  exact hrest

theorem drive_nest_ok (hd : d.declined = [])
    (h : outcome ((Script.nest e body sc).drive (.recorder shape label)) d = (.ok (), d')) :
    ∃ sort inner, opens e.verb = some (sort, inner) ∧
      ∃ d₁, outcome (body.drive (.recorder inner s!"{sort}#{d.recorders}")) (d.hear label e) = (.ok (), d₁) ∧
        outcome (sc.drive (.recorder shape label)) (d₁.hear s!"{sort}#{d.recorders}" .close) = (.ok (), d') := by
  obtain ⟨l, d₁, hvisit, hmore⟩ := outcome_bind_eq_ok _ h
  obtain ⟨rfl, rfl⟩ := visit_recorder_ok hvisit
  obtain ⟨_, d₂, hbody, hmore⟩ := outcome_bind_eq_ok _ hmore
  obtain ⟨_, d₃, hclose, hrest⟩ := outcome_bind_eq_ok _ hmore
  cases hopens : opens e.verb with
  | none =>
    rw [handedOver, hopens] at hclose
    cases hclose
  | some p =>
    rw [handedOver_of_opens hopens hd] at hbody hclose
    obtain ⟨-, rfl⟩ := visit_recorder_ok hclose
    exact ⟨p.1, p.2, rfl, d₂, hbody, hrest⟩

theorem suffix_drive (hd : d.declined = []) (h : outcome (sc.drive (.recorder shape label)) d = (.ok (), d')) :
    d.notes <:+ d'.notes ∧ d'.declined = [] := by
  induction sc generalizing shape label d d' with
  | done =>
    cases h
    exact ⟨suffix_rfl, hd⟩
  | tell e rest ih =>
    obtain ⟨hsuffix, hd'⟩ := ih (by simp [hd]) (drive_tell_ok h)
    exact ⟨(suffix_hear d label e).trans hsuffix, hd'⟩
  | nest e body rest ihbody ihrest =>
    obtain ⟨sort, inner, -, d₁, hbody, hrest⟩ := drive_nest_ok hd h
    obtain ⟨hsuffix, hd₁⟩ := ihbody (by simp [hd]) hbody
    obtain ⟨hsuffix', hd'⟩ := ihrest (by simp [hd₁]) hrest
    exact ⟨(suffix_hear d label e).trans (hsuffix.trans ((suffix_hear _ _ _).trans hsuffix')), hd'⟩

end Drive

/-- The first note that a line adds, if it adds any, is not the call that is looked for. -/
def Strays (label : String) (e : Event) (d : Desk) (res : Except Fault Unit) (d' : Desk) : Prop :=
  ∃ ns, d'.notes = ns ++ d.notes ∧ (∀ child?, ns.getLast? ≠ some (.heard label e child?)) ∧ (res = .ok () → ns ≠ [])

theorem strays_hear {e e' : Event} (hne : e' ≠ e) (d : Desk) (res : Except Fault Unit) :
    Strays label e d res (d.hear label e') := by
  obtain ⟨told?, hnotes⟩ := notes_hear d label e'
  refine ⟨[.heard label e' told?], hnotes, fun child? hlast => hne ?_, by simp⟩
  rw [getLast?_singleton, Option.some.injEq, Note.heard.injEq] at hlast
  exact hlast.2.1

theorem not_suffix_of_line {u : Session Listener Desk}
    (hread : outcome reader.readLine s = (.ok (), u)) (hnotes : (s.world.hear label e).notes <:+ notes)
    (hmore : ∀ t, reader.Reads u t → ¬ notes <:+ t.world.notes) (ht : reader.Reads s t) : ¬ notes <:+ t.world.notes := by
  intro h
  cases ht with
  | refl =>
    obtain ⟨child?, hn⟩ := notes_hear s.world label e
    have hle := (hnotes.trans h).length_le
    simp [hn] at hle
  | line hl htail =>
    rw [hread] at hl
    cases hl
    exact hmore t htail h

theorem not_suffix_of_strays (hs : mounting.holds s)
    (hstrays : ∀ res u, outcome reader.readLine s = (res, u) → Strays label e s.world res u.world)
    (hnotes : (s.world.hear label e).notes <:+ notes) (ht : reader.Reads s t) : ¬ notes <:+ t.world.notes := by
  intro h
  obtain ⟨child?, hn⟩ := notes_hear s.world label e
  rw [hn] at hnotes
  cases ht with
  | refl => exact absurd (hnotes.trans h).length_le (by simp)
  | @line _ u _ hl hmore =>
    obtain ⟨ns, hu, hlast, hsome⟩ := hstrays _ _ hl
    obtain ⟨ms, m, rfl⟩ := (eq_nil_or_concat' ns).resolve_left (hsome rfl)
    have hm : m :: s.world.notes <:+ t.world.notes := by
      refine IsSuffix.trans ⟨ms, ?_⟩ (suffix_of_reads hmore ((governs_mounting.readLine _ hs).holds_of hl))
      rw [hu]
      simp
    have heq := suffix_of_suffix_length_le (hnotes.trans h) hm (by simp)
    obtain rfl := (cons.inj (heq.eq_of_length (by simp))).1
    exact hlast child? (by simp)

/-! ### Lines that stray -/

end Desk

namespace Line

theorem Carries.cut {l name : String} (hname : IsBare name) (hc : tail.toList.head? = some c)
    (hblank : isBlank c = false) (hcmark : c ≠ '#') (hbreak : '\n' ∉ tail.toList) (hmark : '#' ∈ tail.toList)
    (hl : Carries l (name ++ " = " ++ tail)) (ht : IsTrim (name ++ " = " ++ tail)) :
    ∃ raw comment w ws kept, ofString l = .ok ⟨raw, name ++ " = " ++ kept, some comment, name :: "=" :: w :: ws⟩ ∧
      kept.toList.head? = some c ∧ w.toList.head? = some c ∧ '#' ∉ kept.toList := by
  obtain ⟨a, b, hab, ha⟩ := eq_append_cons_of_mem hmark
  obtain ⟨a, rfl⟩ : ∃ cs, a = c :: cs := by
    cases a with
    | nil => simp [hab] at hc; exact absurd hc.symm hcmark
    | cons e cs => exact ⟨cs, by simpa [hab] using hc⟩
  have hnot : '#' ∉ (name ++ " = ").toList ++ c :: a := by
    simpa [hname.mark_not_mem] using ha
  obtain ⟨comment, hcut⟩ := cutComment_append hnot (b := b) fun hmem => hbreak (by rw [hab]; simp [hmem])
  rw [dropEnd_keep hblank] at hcut
  have hspace : c ≠ ' ' := by
    rintro rfl
    exact absurd hblank (by decide)
  obtain ⟨w, ws, hw, hwords⟩ := @splitWords_named name hname (String.ofList (c :: dropEnd isBlank a)) c (by simp) hspace
  have htext : (name ++ " = " ++ tail).toList = (name ++ " = ").toList ++ c :: a ++ '#' :: b := by
    rw [String.toList_append, hab, append_assoc]
  have hkept : String.ofList ((name ++ " = ").toList ++ c :: dropEnd isBlank a)
      = name ++ " = " ++ String.ofList (c :: dropEnd isBlank a) := by
    rw [← String.toList_inj]
    simp
  refine ⟨String.ofList (dropEnd isBlank l.toList), wording comment, w, ws, String.ofList (c :: dropEnd isBlank a), ?_,
    by simp, hw, ?_⟩
  · simp only [ofString, (hl.trimmed ht).2.2, htext, hcut, append_nil, hkept, hwords]
    rfl
  · intro hmem
    rw [String.toList_ofList] at hmem
    rcases mem_cons.mp hmem with h | hmem
    · exact hcmark h.symm
    · rw [dropEnd, mem_reverse] at hmem
      exact ha (.tail _ (mem_reverse.mp ((dropWhile_sublist _).mem hmem)))

end Line

namespace Desk

open Document Properties

variable {label name : String} {st : Slots Listener}

/-- An annotation stays the innermost construct, and no value is told to it. -/
def murmuring (label : String) (st : List (Slot Listener)) : Contract (Session Listener Desk) where
  holds s := s.stack = .node (.recorder .annot label) :: st
  leads s t := ∃ ns, t.world.notes = ns ++ s.world.notes ∧ ∀ n ∈ ns, ∃ e, n = .heard label e none ∧ e.verb ≠ .value
  admits _ _ := True
  refl _ := ⟨[], rfl, by simp⟩
  trans := by
    rintro s t u ⟨ns, hns, hall⟩ ⟨ms, hms, hall'⟩
    refine ⟨ms ++ ns, by rw [hms, hns, append_assoc], fun n hn => ?_⟩
    rcases mem_append.mp hn with hn | hn
    · exact hall' n hn
    · exact hall n hn

theorem passes_murmuring : Passes (murmuring label st) where
  moves s _ hs := ⟨hs, (murmuring label st).refl s⟩
  faults _ _ _ _ := trivial

theorem outcome_publishComment_some {l : Line} {c : String} (hc : l.comment? = some c) (src : Source)
    (ws : List String) (d : Desk) :
    outcome reader.publishComment ⟨src, ⟨some l, ws⟩, taped .annot label st, d⟩
      = (.ok (), ⟨src, ⟨some l, ws⟩, taped .annot label st, d.hear label (.trailing (.text c))⟩) := by
  rw [publishComment, outcome_bind, outcome_currentLine]
  simp only [hc]
  rw [outcome_bind]
  simp only [Slot.isAbsent]
  rfl

theorem outcome_publishComment_none {l : Line} (hc : l.comment? = none) (src : Source) (ws : List String) (d : Desk) :
    outcome reader.publishComment ⟨src, ⟨some l, ws⟩, taped .annot label st, d⟩
      = (.ok (), ⟨src, ⟨some l, ws⟩, taped .annot label st, d⟩) := by
  rw [publishComment, outcome_bind, outcome_currentLine]
  simp only [hc]
  rfl

theorem kept_publishComment : (murmuring label st).Kept reader.publishComment := by
  rintro ⟨src, ⟨line?, ws⟩, _, d⟩ hs
  obtain rfl : _ = _ := hs
  cases line? with
  | none => exact .of_error rfl rfl ((murmuring label st).refl _) trivial
  | some l =>
    cases hc : l.comment? with
    | none => exact .of_ok (outcome_publishComment_none hc src ws d) rfl ((murmuring label st).refl _)
    | some c =>
      refine .of_ok (outcome_publishComment_some hc src ws d) rfl
        ⟨[.heard label (.trailing (.text c)) none], ?_, by simp [verb]⟩
      rfl

theorem kept_nextLine : (murmuring label st).Kept reader.nextLine := by
  have hwithin : ∀ n, (murmuring label st).Kept (reader.nextLineWithin n) := by
    intro n
    induction n with
    | zero => exact fun s hs => keptAt_throw hs trivial
    | succ n ih =>
      rintro ⟨⟨ls⟩, k, _, d⟩ hs
      obtain rfl : _ = _ := hs
      cases ls with
      | nil => exact .of_error rfl rfl ((murmuring label st).refl _) trivial
      | cons line? ls =>
        cases line? with
        | none => exact .of_error rfl rfl ((murmuring label st).refl _) trivial
        | some l =>
          obtain ⟨k', hk⟩ := k.reset_ok l
          have hadvance := outcome_advance_some l ls k (taped .annot label st) d
          rw [hk] at hadvance
          refine keptAt_bind (.of_ok hadvance rfl ((murmuring label st).refl _)) fun l' t _ ht _ => ?_
          split
          · obtain ⟨src', k', _, d'⟩ := t
            obtain rfl : _ = _ := ht
            exact keptAt_bind (.of_ok rfl rfl ((murmuring label st).refl _)) fun _ u _ hu _ => ih u hu
          · exact keptAt_pure ht ()
  exact kept_get.bind fun s => hwithin _

theorem kept_listedValues (n : Nat) : (murmuring label st).Kept (reader.listedValues false n) := by
  have h : Passes (murmuring label st) := passes_murmuring
  induction n with
  | zero => exact fun s hs => keptAt_throw hs trivial
  | succ n ih =>
    refine (h.onLine parallel_cleaned).bind fun text => (h.onLine parallel_cleaned).bind fun text' => ?_
    split
    · refine kept_ite (fun _ => kept_pure _) fun _ =>
        (h.onLine parallel_peekWord).bind fun word => ?_
      refine kept_publishComment.bind fun _ => kept_nextLine.bind fun _ => ih.bind fun _ => kept_pure _
    · exact h.onLine (parallel_throw rfl)

variable {l : Line} {ws : List String} {e : Event} (src : Source) (d : Desk)

/-- The members of a list whose lines follow. -/
def longValues : Read Listener Desk (List String) := do
  reader.nextLine
  reader.listedValues false ((← payloadBound) + 1)

theorem kept_longValues : (murmuring label st).Kept longValues :=
  kept_nextLine.bind fun _ => (kept_get.bind fun _ => kept_pure _).bind fun _ => kept_listedValues _

/-- A list is told. -/
def tellArray (name : String) (values : List String) : Read Listener Desk Unit := do
  unless ← annotMuted do reader.tell (.array (.text name) (.texts values))

theorem outcome_tellArray (k : Cursor) (values : List String) :
    outcome (tellArray name values) ⟨src, k, taped .annot label st, d⟩ = (.ok (), ⟨src, k, taped .annot label st,
          d.hear label (.array (.text name) (.texts values))⟩) := by
  have hmuted : outcome (annotMuted : Read Listener Desk Bool) ⟨src, k, taped .annot label st, d⟩
      = (.ok false, ⟨src, k, taped .annot label st, d⟩) := rfl
  rw [tellArray, bind_ok _ hmuted]
  exact outcome_tell src k st d rfl

theorem notes_longList (hs : (murmuring label st).holds s)
    (h : outcome (longValues >>= tellArray name) s = (res, t)) :
    ∃ ns, t.world.notes = ns ++ s.world.notes ∧ (∀ n ∈ ns, ∃ e, n = .heard label e none ∧ e.verb ≠ .value) ∧
      (res = .ok () → ns ≠ []) := by
  have hkept := kept_longValues s hs
  cases res with
  | error f =>
    rcases outcome_bind_eq_error s h with hvalues | ⟨values, u, hvalues, htell⟩
    · obtain ⟨ns, hns, hall⟩ := hkept.leads_of hvalues
      exact ⟨ns, hns, hall, by simp⟩
    · obtain ⟨src, k, _, d⟩ := u
      obtain rfl : _ = _ := hkept.holds_of hvalues
      cases htell
  | ok _ =>
    obtain ⟨values, u, hvalues, htell⟩ := outcome_bind_eq_ok s h
    obtain ⟨ns, hns, hall⟩ := hkept.leads_of hvalues
    obtain ⟨src, k, _, d⟩ := u
    obtain rfl : _ = _ := hkept.holds_of hvalues
    rw [outcome_tellArray] at htell
    cases htell
    refine ⟨.heard label (.array (.text name) (.texts values)) none :: ns, ?_, fun n hn => ?_, by simp⟩
    · rw [hear_eq rfl]
      simpa using hns
    · rcases mem_cons.mp hn with rfl | hn
      · exact ⟨_, rfl, by simp [verb]⟩
      · exact hall n hn

theorem strays_longList (he : e.verb = .value ∨ (∃ c, l.comment? = some c) ∧ e.verb ≠ .trailing)
    (h : outcome (reader.publishComment >>= fun _ => longValues >>= tellArray name)
      ⟨src, ⟨some l, ws⟩, taped .annot label st, d⟩ = (res, t)) :
    Strays label e d res t.world := by
  have hholds : ∀ d, (murmuring label st).holds ⟨src, ⟨some l, ws⟩, taped .annot label st, d⟩ :=
    fun _ => rfl
  cases hc : l.comment? with
  | some c =>
    have hne : e.verb ≠ .trailing := by
      rcases he with he | he
      · rw [he]
        decide
      · exact he.2
    rw [bind_ok _ (outcome_publishComment_some hc src ws d)] at h
    obtain ⟨ns, hns, -⟩ := notes_longList (hholds _) h
    refine ⟨ns ++ [.heard label (.trailing (.text c)) none], ?_, ?_, by simp⟩
    · rw [hns, hear_eq rfl]
      simp
    · intro child? hlast
      rw [getLast?_concat, Option.some.injEq, Note.heard.injEq] at hlast
      obtain rfl := hlast.2.1
      exact hne rfl
  | none =>
    have hvalue : e.verb = .value := he.resolve_right fun ⟨⟨c, hsome⟩, _⟩ => by simp [hc] at hsome
    rw [bind_ok _ (outcome_publishComment_none hc src ws d)] at h
    obtain ⟨ns, hns, hall, hsome⟩ := notes_longList (hholds _) h
    refine ⟨ns, hns, fun child? hlast => ?_, hsome⟩
    obtain ⟨e', he', hverb⟩ := hall _ (mem_of_getLast? hlast)
    rw [Note.heard.injEq] at he'
    obtain rfl := he'.2.1
    exact hverb hvalue

/-- A value or a list strays if neither a value nor a list of this name, with characters of the line, is what it
stands for. -/
theorem strays_plainValue {w : String} (hvalue : '\x7b' ∉ l.cleaned.toList → e ≠ .value (.text name) (.text w))
    (harray : ∀ xs : List String, (∀ x ∈ xs, ∀ c ∈ x.toList, c ∈ l.cleaned.toList) → e ≠ .array (.text name) (.texts xs))
    (hlong : e.verb = .value ∨ (∃ c, l.comment? = some c) ∧ e.verb ≠ .trailing)
    (h : outcome (reader.plainValue name) ⟨src, ⟨some l, w :: ws⟩, taped .annot label st, d⟩ = (res, t)) :
    Strays label e d res t.world := by
  have hmuted : outcome (annotMuted : Read Listener Desk Bool)
      ⟨src, ⟨some l, w :: ws⟩, taped .annot label st, d⟩ = (.ok false, _) := rfl
  rw [plainValue, bind_ok _ hmuted, bind_ok _ (outcome_cleaned ..)] at h
  simp only [Bool.false_eq_true, if_false] at h
  by_cases hopen : '\x7b' ∈ l.cleaned.toList
  · simp only [hopen, contains_eq_mem, decide_true, if_true] at h
    by_cases hclose : '\x7d' ∈ l.cleaned.toList
    · simp only [hclose, decide_true, if_true] at h
      cases (outcome_tellArray src d _ _).symm.trans h
      refine strays_hear (harray _ fun x hx c hc => ?_).symm d _
      obtain ⟨p, hp, rfl⟩ := mem_map.mp hx
      rw [String.toList_ofList] at hc
      rcases (mem_cutAt hp (by simp)).2 c (mem_of_mem_dropBoth hc) with hc | hc
      · cases hc
      · exact mem_of_mem_take (mem_of_mem_drop hc)
    · simp only [hclose, decide_false, Bool.false_eq_true, if_false] at h
      apply strays_longList src d hlong
      simp only [longValues, bind_assoc]
      exact h
  · simp only [hopen, contains_eq_mem, decide_false, Bool.false_eq_true, if_false] at h
    rw [bind_ok _ hmuted, if_neg (by decide)] at h
    cases h
    exact strays_hear (hvalue hopen).symm d _

section Property

variable {text w : String} (hname : isEntryName name = true) (rest : Lines) (k : Cursor)

include hname

theorem outcome_readLine_property {raw : String} {comment? : Option String} (hremark : isRemark text = false)
    (hne : text ≠ "") (hline : Line.ofString text = .ok ⟨raw, name ++ " = " ++ tail, comment?, name :: "=" :: w :: ws⟩)
    (hw : w.toList.head? = some c) (hdot : c ≠ '.') :
    outcome reader.readLine ⟨⟨some text :: rest⟩, k, taped .annot label st, d⟩
      = outcome (reader.plainValue name) ⟨⟨rest⟩, ⟨some ⟨raw, name ++ " = " ++ tail, comment?, name :: "=" :: w :: ws⟩,
          w :: ws⟩, taped .annot label st, d⟩ := by
  have hcleaned : name ++ " = " ++ tail ≠ "" := by
    intro hempty
    have := congrArg String.toList hempty
    simp at this
  rw [reader.outcome_readLine hremark hne hline hcleaned]
  exact outcome_statement_value hname hw hdot ws ⟨rest⟩ _ st d

theorem strays_value {v : Scalar} (hv : v.IsValue) (hbad : ¬ ('#' ∉ v.text.toList ∧ '\x7b' ∉ v.text.toList ∧ v.IsWhole))
    (hl : Carries text (name ++ " = " ++ v.text))
    (h : outcome reader.readLine ⟨⟨some text :: rest⟩, k, taped .annot label st, d⟩ = (res, t)) :
    Strays label (.value (.text name) (.text v.text)) d res t.world := by
  have hbare := (entryName_cases hname).1
  obtain ⟨⟨c, hc, hblank, hcmark⟩, hlast⟩ := v.ends
  have hdot : c ≠ '.' := by
    rintro rfl
    exact hv.1 hc
  have htrim := isTrim_named hbare hc hlast
  obtain ⟨hremark, hne, -⟩ := hl.trimmed htrim
  by_cases hmark : '#' ∈ v.text.toList
  · obtain ⟨raw, comment, w, ws, kept, hline, -, hw, hkept⟩ :=
      hl.cut hbare hc hblank hcmark v.break_not_mem hmark htrim
    rw [outcome_readLine_property d hname rest k hremark hne hline hw hdot] at h
    refine strays_plainValue ⟨rest⟩ d (fun _ he => ?_) (fun xs _ he => by cases he) (.inl rfl) h
    obtain rfl : v.text = w := by simpa using he
    have hjoin : _ = name ++ " = " ++ kept := intercalate_words hline
    have hmem : '#' ∈ (" ".intercalate (name :: "=" :: v.text :: ws)).toList := mem_intercalate (by simp) hmark
    rw [hjoin] at hmem
    simp [hbare.mark_not_mem, hkept] at hmem
  · have hspace : c ≠ ' ' := by
      rintro rfl
      exact absurd hblank (by decide)
    obtain ⟨w, ws, hw, hwords⟩ := splitWords_named hbare hc hspace
    have hfree : '#' ∉ (name ++ " = " ++ v.text).toList := by simp [hbare.mark_not_mem, hmark]
    obtain ⟨⟨-, raw, hline⟩, hjoin⟩ := hl.shows htrim hfree hwords
    rw [hjoin] at hline
    rw [outcome_readLine_property d hname rest k hremark hne hline hw hdot] at h
    refine strays_plainValue ⟨rest⟩ d (fun hbrace he => hbad ⟨hmark, ?_, ?_⟩) (fun xs _ he => by cases he) (.inl rfl) h
    · exact fun hmem => hbrace (by simp [hmem])
    · -- the value would be the third word, and nothing of the line is left behind it
      obtain rfl : v.text = w := by simpa using he
      have hnone : ws = [] := by
        cases ws with
        | nil => rfl
        | cons u us =>
          have hlength := congrArg (fun t : String => t.toList.length) hjoin
          simp [String.intercalate_cons_cons] at hlength
      rw [hnone] at hwords
      exact (splitWords_value_iff hbare v).mp hwords

theorem strays_list {left right : Nat} {xs : List Scalar}
    (hbad : ¬ (xs ≠ [] ∧ ∀ x ∈ xs, '#' ∉ x.text.toList ∧ ',' ∉ x.text.toList ∧ '\x7d' ∉ x.text.toList))
    (hl : Carries text (name ++ " = " ++ braces left right (xs.map (·.text))))
    (h : outcome reader.readLine ⟨⟨some text :: rest⟩, k, taped .annot label st, d⟩ = (res, t)) :
    Strays label (.array (.text name) (.texts (xs.map (·.text)))) d res t.world := by
  have hbare := (entryName_cases hname).1
  by_cases hmark : ∀ x ∈ xs.map (·.text), '#' ∉ x.toList
  · obtain ⟨k', hread⟩ := (takes_list hname hmark hl).line rest k
    rw [hread] at h
    cases h
    refine strays_hear (fun heq => hbad ?_) d _
    have heq : members left right (xs.map (·.text)) = xs.map (·.text) := by
      simp only [array.injEq, true_and, Datum.texts, Datum.list.injEq] at heq
      exact map_injective_iff.mpr (fun _ _ h => Datum.text.inj h) heq
    obtain ⟨hne, hall⟩ := (members_eq_iff left right xs).mp heq
    exact ⟨hne, fun x hx => ⟨hmark _ (mem_map.mpr ⟨x, hx, rfl⟩), hall x hx⟩⟩
  · have hmark : ∃ x ∈ xs, '#' ∈ x.text.toList := by
      by_contra hnone
      refine hmark fun y hy hmem => hnone ?_
      obtain ⟨x, hx, rfl⟩ := mem_map.mp hy
      exact ⟨x, hx, hmem⟩
    obtain ⟨x, hx, hmem⟩ := hmark
    have htrim := isTrim_list hname left right (xs.map (·.text))
    obtain ⟨hremark, hne, -⟩ := hl.trimmed htrim
    have hbrace : (braces left right (xs.map (·.text))).toList.head? = some '\x7b' := by simp [braces]
    have hbreak : '\n' ∉ (braces left right (xs.map (·.text))).toList := by
      have hitems := not_mem_intercalate_comma (c := '\n') (by decide) (by decide)
        (forall_mem_map.mpr fun x (_ : x ∈ xs) => x.break_not_mem)
      simpa [braces] using hitems
    have hsharp : '#' ∈ (braces left right (xs.map (·.text))).toList := by
      have hitems : '#' ∈ (", ".intercalate (xs.map (·.text))).toList :=
        mem_intercalate (mem_map.mpr ⟨x, hx, rfl⟩) hmem
      simpa [braces] using hitems
    obtain ⟨raw, comment, w, ws, kept, hline, hkhead, hw, hkept⟩ :=
      hl.cut hbare hbrace (by decide) (by decide) hbreak hsharp htrim
    rw [outcome_readLine_property d hname rest k hremark hne hline hw (by decide)] at h
    refine strays_plainValue ⟨rest⟩ d (fun hnot => absurd ?_ hnot) (fun ys hys he => ?_)
      (.inr ⟨⟨comment, rfl⟩, by simp [verb]⟩) h
    · simp [mem_of_head? hkhead]
    · simp only [array.injEq, true_and, Datum.texts, Datum.list.injEq] at he
      obtain rfl := map_injective_iff.mpr (fun _ _ h => Datum.text.inj h) he
      have hin := hys _ (mem_map.mpr ⟨x, hx, rfl⟩) _ hmem
      simp [hbare.mark_not_mem, hkept] at hin

theorem blank_ne_name {t : String} : " " ++ t ≠ name := by
  rintro rfl
  exact (entryName_cases hname).1.space_not_mem (by simp)

theorem strays_constant {owner const : String} (howner : isTypeName owner = true) (hconst : isConstantName const = true)
    (htype : isTypeName type = true) (hl : Carries text (" ".intercalate (name :: constantWords owner const type)))
    (h : outcome reader.readLine ⟨⟨some text :: rest⟩, k, taped .annot label st, d⟩ = (res, t)) :
    Strays label (.enumConst (.text name) (.text owner) (.text const) (.text type)) d res t.world := by
  obtain ⟨k', hread⟩ := (takes_wording (isWording_constant hname howner hconst htype) hl fun raw =>
    ends_constant hname howner hconst htype).line rest k
  rw [hread] at h
  cases h
  exact strays_hear (fun heq => blank_ne_name hname (Datum.text.inj (enumConst.inj heq).1)) d _

theorem strays_nested {flags : List String} (hflags : ∀ k ∈ flags, Access.isKeyword k = true)
    (htype : isTypeName type = true) (hd : d.declined = [])
    (hl : Carries text (" ".intercalate (name :: nestedWords flags type)))
    (h : outcome reader.readLine ⟨⟨some text :: rest⟩, k, taped .annot label st, d⟩ = (res, t)) :
    Strays label (.subAnnot (.text name) (.int (Access.flags flags)) (.text type)) d res t.world := by
  obtain ⟨k', hread⟩ := (takes_wording (isWording_nested hname hflags htype) hl fun raw =>
    ends_nested hname hflags htype hd).line rest k
  rw [hread] at h
  cases h
  exact strays_hear (fun heq => blank_ne_name hname (Datum.text.inj (subAnnot.inj heq).1)) d _

end Property

end Desk

/-! ### Bodies -/

namespace Properties

open Desk

variable {b : Properties} {label : String} {st : Slots Listener} {d d' : Desk}

theorem drive_script (b : Properties) (label : String) (hd : d.declined = []) :
    ∃ d', outcome (b.script.drive (.recorder .annot label)) d = (.ok (), d') ∧ d'.declined = [] := by
  induction b generalizing label d with
  | done => exact ⟨d, rfl, hd⟩
  | value _ _ _ ih | list _ _ _ _ _ ih | constant _ _ _ _ _ ih =>
    exact ih label (by simp [hd])
  | nested name flags type body rest ihbody ihrest =>
    have hopens : opens (subAnnot (.text name.1) (.int (Access.flags (flags.map (·.1))))
        (.text type.1)).verb = some (Construct.subAnnot.sort, .annot) := rfl
    rw [script, Script.drive, bind_ok _ (outcome_visit_recorder d rfl), handedOver_of_opens hopens hd]
    obtain ⟨d₁, hbody, hd₁⟩ := @ihbody (d.hear label _) (Construct.subAnnot.label d) (by simp [hd])
    rw [Construct.label] at hbody
    rw [bind_ok _ hbody]
    exact ihrest label (by simp [hd₁])

theorem not_suffix_of_not_faithful (hb : ¬ b.Faithful) (hst : ∀ slot ∈ st, Recorded slot) (hd : d.declined = [])
    (hdrive : outcome (b.script.drive (.recorder .annot label)) d = (.ok (), d')) {ls : List String}
    (hls : Forall₂ Carries ls b.texts) {rest : Lines} {k : Cursor}
    (ht : reader.Reads ⟨⟨ls.map some ++ rest⟩, k, taped .annot label st, d⟩ t) :
    ¬ d'.notes <:+ t.world.notes := by
  have hholds : ∀ src k d, mounting.holds ⟨src, k, taped .annot label st, d⟩ := by
    intro src k d slot hslot
    rcases mem_cons.mp hslot with rfl | hslot
    · exact fun n hn => ⟨.annot, label, by cases hn; rfl⟩
    · exact hst slot hslot
  induction b generalizing d ls k t with
  | done => exact absurd trivial hb
  | value name v more ih =>
    obtain ⟨l, ls, hl, htail, rfl⟩ := forall₂_cons_right_iff.mp hls
    have hmore := drive_tell_ok hdrive
    by_cases hgood : '#' ∉ v.1.text.toList ∧ '\x7b' ∉ v.1.text.toList ∧ v.1.IsWhole
    · obtain ⟨k', hread⟩ := (takes_value name.2 v.2 hgood.1 hgood.2.1 hgood.2.2 hl).line (ls.map some ++ rest) k
      exact not_suffix_of_line hread (suffix_drive (by simp [hd]) hmore).1
        (fun u hu => ih (fun hrest => hb ⟨hgood, hrest⟩) (by simp [hd]) hmore htail hu) ht
    · exact not_suffix_of_strays (hholds _ _ _) (fun _ _ h => strays_value d name.2 _ _ v.2 hgood hl h)
        (suffix_drive (by simp [hd]) hmore).1 ht
  | list name left right items more ih =>
    obtain ⟨l, ls, hl, htail, rfl⟩ := forall₂_cons_right_iff.mp hls
    have hmore := drive_tell_ok hdrive
    by_cases hgood : items ≠ [] ∧ ∀ x ∈ items, '#' ∉ x.text.toList ∧ ',' ∉ x.text.toList ∧ '\x7d' ∉ x.text.toList
    · have hmark : ∀ x ∈ items.map (·.text), '#' ∉ x.toList := 
        forall_mem_map.mpr fun y hy => (hgood.2 y hy).1
      obtain ⟨k', hread⟩ := (takes_list name.2 hmark hl).line (ls.map some ++ rest) k
      rw [(members_eq_iff left right items).mpr ⟨hgood.1, fun x hx => (hgood.2 x hx).2⟩] at hread
      exact not_suffix_of_line hread (suffix_drive (by simp [hd]) hmore).1
        (fun u hu => ih (fun hrest => hb ⟨hgood, hrest⟩) (by simp [hd]) hmore htail hu) ht
    · exact not_suffix_of_strays (hholds _ _ _) (fun _ _ h => strays_list d name.2 _ _ hgood hl h)
        (suffix_drive (by simp [hd]) hmore).1 ht
  | constant name owner const type more ih =>
    obtain ⟨l, ls, hl, -, rfl⟩ := forall₂_cons_right_iff.mp hls
    exact not_suffix_of_strays (hholds _ _ _) (fun _ _ h => strays_constant d name.2 _ _ owner.2 const.2 type.2 hl h)
      (suffix_drive (by simp [hd]) (drive_tell_ok hdrive)).1 ht
  | nested name flags type body more ihbody ihmore =>
    obtain ⟨l, ls, hl, -, rfl⟩ := forall₂_cons_right_iff.mp hls
    obtain ⟨sort, inner, -, d₁, hinner, hmore⟩ := drive_nest_ok hd hdrive
    have hflags : ∀ k ∈ flags.map (·.1), Access.isKeyword k = true := forall_mem_map.mpr fun x _ => x.2
    obtain ⟨hsuffix, hd₁⟩ := suffix_drive (by simp [hd]) hinner
    exact not_suffix_of_strays (hholds _ _ _) (fun _ _ h => strays_nested d name.2 _ _ hflags type.2 hd hl h)
      (hsuffix.trans ((suffix_hear _ _ _).trans (suffix_drive (by simp [hd₁]) hmore).1)) ht

end Properties

end Dalvik
