import Dalvik.Proofs.Effects
import Dalvik.Proofs.Headings
import Dalvik.Proofs.Unread

/-!
# Members and the constructs that enclose them

What is read is meant to be noted by the recorder of the construct that encloses it, and the recorder of every
construct, the root among them, is meant to note its end once, where the construct ends
(`ClassSource.Enclosed`). The main statement, `ClassSource.visit_encloses_iff`, says that a well nested source
is noted in this way exactly if no field in it is left open.

Without open fields the stack of the reader follows the outline (`Desk.proceeds_aligned`, an induction over the
outline). With an open field it does not: the field leaves the stack without a note, or takes the end of the
class around it, or that of the whole source. As many ends are noted as are written, and one more at the end of
the source (`Desk.proceeds_classes`), so that some recorder is never told its end.
-/

namespace Dalvik

open List Line Outline Note Reader Nat

variable {k : Construct} {e : Event} {o : Outline} {line : String} {more : List String}

/-! ### Numbers of recorders -/

theorem number_eq_of_label {sort other : String} {n m : Nat} (h : s!"{sort}#{n}" = s!"{other}#{m}") : n = m := by
  -- the digits are what follows the last mark
  have hdigits : ∀ (s : String) (k : Nat),
      s!"{s}#{k}".toList.reverse.takeWhile (· != '#') = (toDigits 10 k).reverse := by
    intro s k
    have hdigit : ∀ c ∈ (toDigits 10 k).reverse, (c != '#') = true := by
      intro c hc
      have hc' := isDigit_of_mem_toDigits (by decide) (by decide) (mem_reverse.mp hc)
      rw [bne_iff_ne]
      rintro rfl
      cases hc'
    have hmark : (toString "#").toList.reverse = ['#'] := rfl
    simp [toString_eq_repr, toList_repr, takeWhile_append_of_pos hdigit, hmark]
  have heq : toDigits 10 n = toDigits 10 m :=
    reverse_inj.mp ((hdigits sort n).symm.trans (h ▸ hdigits other m))
  calc
    n = ofDigitChars 10 (toDigits 10 n) 0 := (ofDigitChars_toDigits (by decide) (by decide)).symm
    _ = ofDigitChars 10 (toDigits 10 m) 0 := by rw [heq]
    _ = m := ofDigitChars_toDigits (by decide) (by decide)

/-- Labels that are all different, with numbers from `a` on and below `b`. -/
structure Numbered (a b : Nat) (labels : List String) : Prop where
  le : a ≤ b
  nodup : labels.Nodup
  number : ∀ l ∈ labels, ∃ (sort : String) (n : Nat), a ≤ n ∧ n < b ∧ l = s!"{sort}#{n}"

namespace Numbered

variable {a b c : Nat} {xs ys : List String}

theorem nil (a : Nat) : Numbered a a [] := ⟨le_refl a, .nil, by simp⟩

theorem single (sort : String) (a : Nat) : Numbered a (a + 1) [s!"{sort}#{a}"] := by
  refine ⟨le_succ a, by simp, fun l hl => ?_⟩
  exact ⟨sort, a, le_refl a, lt_succ_self a, by simpa using hl⟩

theorem append (hx : Numbered a b xs) (hy : Numbered b c ys) : Numbered a c (xs ++ ys) := by
  refine ⟨le_trans hx.le hy.le, nodup_append.mpr ⟨hx.nodup, hy.nodup, ?_⟩, fun l hl => ?_⟩
  · intro l hl m hm heq
    obtain ⟨sort, n, -, hn, rfl⟩ := hx.number l hl
    obtain ⟨sort', n', hn', -, rfl⟩ := hy.number m hm
    have := number_eq_of_label heq
    omega
  · rcases mem_append.mp hl with hl | hl
    · obtain ⟨sort, n, hle, hlt, rfl⟩ := hx.number l hl
      exact ⟨sort, n, hle, lt_of_lt_of_le hlt hy.le, rfl⟩
    · obtain ⟨sort, n, hle, hlt, rfl⟩ := hy.number l hl
      exact ⟨sort, n, le_trans hx.le hle, hlt, rfl⟩

end Numbered

namespace Desk

open Reader

/-! ### Notes, first to last -/

/-- Notes were made, the recorders that came with them are new, and none was declined. -/
structure Noted (ns : List Note) (d d' : Desk) : Prop where
  notes : d'.notes = ns.reverse ++ d.notes
  numbered : Numbered d.recorders d'.recorders (ns.filterMap opened?)
  declined : d'.declined = d.declined

namespace Noted

variable {ns ms : List Note} {d d₁ d' : Desk}

theorem nil (d : Desk) : Noted [] d d := ⟨rfl, .nil _, rfl⟩

theorem append (h : Noted ns d d₁) (h' : Noted ms d₁ d') : Noted (ns ++ ms) d d' := by
  refine ⟨by rw [h'.notes, h.notes]; simp, ?_, h'.declined.trans h.declined⟩
  rw [filterMap_append]
  exact h.numbered.append h'.numbered

theorem of_grows {p : Note → Prop} (h : Grows p d d') (hp : ∀ n, p n → n.opened? = none) :
    ∃ ns, Noted ns d d' ∧ ∀ n ∈ ns, p n := by
  obtain ⟨⟨ns, hns, hall⟩, hrecorders, hdeclined⟩ := h
  refine ⟨ns.reverse, ⟨by simpa using hns, ?_, hdeclined⟩, fun n hn => hall n (mem_reverse.mp hn)⟩
  rw [filterMap_eq_nil_iff.mpr fun n hn => hp n (hall n (mem_reverse.mp hn)), hrecorders]
  exact .nil _

theorem hear_opening (he : e.verb = k.verb) (hd : d.declined = []) (label : String) :
    Noted [.heard label e (some (some (k.label d)))] d (d.hear label e) := by
  have hhear : d.hear label e = { d with
      recorders := d.recorders + 1, notes := .heard label e (some (some (k.label d))) :: d.notes } := by
    simp [hear, he, k.opens_verb, hd, handedOver_eq he hd, Listener.label?]
  rw [hhear]
  exact ⟨rfl, .single k.sort d.recorders, rfl⟩

theorem hear_close (d : Desk) (label : String) : Noted [.heard label .close none] d (d.hear label .close) :=
  ⟨rfl, .nil _, rfl⟩

end Noted

/-! ### Runs over an outline -/

/-- Reading goes on from one session to another: it stops where it stops from there. -/
def Proceeds (r : Reader Listener Desk) (s t : Session Listener Desk) : Prop :=
  ∀ f u, r.Stops t f u → r.Stops s f u

namespace Proceeds

variable {r : Reader Listener Desk} {s t u : Session Listener Desk}

theorem refl (s : Session Listener Desk) : Proceeds r s s := fun _ _ h => h

theorem trans (h : Proceeds r s t) (h' : Proceeds r t u) : Proceeds r s u := fun f v hv => h f v (h' f v hv)

theorem of_ok (h : outcome r.readLine s = (.ok (), t)) : Proceeds r s t :=
  fun _ _ hstop => (Reads.single h).stops hstop

theorem of_eq (h : outcome r.readLine s = outcome r.readLine t) : Proceeds r s t := by
  rintro f u ⟨v, hreads, hf⟩
  cases hreads with
  | refl => exact ⟨s, .refl s, h.trans hf⟩
  | line hl hrest => exact ⟨v, .line (h.trans hl) hrest, hf⟩

end Proceeds

variable {validate comments : Bool} {shape : Shape} {label : String} {st : Slots Listener} {d : Desk}
  {r : Reader Listener Desk}

theorem IsStatement.proceeds {line : String} {more : List String}
    (h : IsStatement (strict validate comments) shape line more) (hd : d.declined = [])
    (rest : Lines) (cur : Cursor) :
    ∃ cur' d' ns, Proceeds (strict validate comments) ⟨⟨(line :: more).map some ++ rest⟩, cur, taped shape label st, d⟩
        ⟨⟨rest⟩, cur', taped shape label st, d'⟩ ∧
      Noted ns d d' ∧ ∀ n ∈ ns, n.Own label := by
  obtain ⟨⟨_, cur', _, d'⟩, hread, rfl⟩ := h.accepted rest cur label st d hd
  have hfield : shape ≠ .field ∨ (ofText line).cleaned = "" ∨ Role.tells = .opens .annot := by
    by_cases hshape : shape = .field
    · have hfits := h.fits
      rw [hshape] at hfits
      exact .inr (.inl hfits)
    · exact .inl hshape
  obtain ⟨rfl, hgrows⟩ := readLine_effect _ cur hd h.plain h.role hfield hread
  obtain ⟨ns, hnoted, hown⟩ := Noted.of_grows hgrows fun n hn => hn.opened?
  exact ⟨cur', d', ns, .of_ok hread, hnoted, hown⟩

/-- A header is noted by the recorder around it, and the recorder of the construct that it opens becomes the
innermost one. -/
theorem IsHeader.proceeds {k : Construct} {line : String}
    (h : IsHeader (strict validate comments) shape k line) (hd : d.declined = [])
    (rest : Lines) (cur : Cursor) :
    ∃ cur' d' inner e ns, outcome (strict validate comments).readLine
        ⟨⟨some line :: rest⟩, cur, taped shape label st, d⟩
        = (.ok (), ⟨⟨rest⟩, cur', .node (.recorder k.shape inner) :: taped shape label st, d'⟩) ∧
      Noted (.heard label e (some (some inner)) :: ns) d d' ∧ e.verb = k.verb ∧ ∀ n ∈ ns, n.Trails label inner := by
  obtain ⟨⟨_, cur', _, d'⟩, hread, rfl⟩ := h.accepted rest cur label st d hd
  have hfield : shape ≠ .field ∨ (ofText line).cleaned = "" ∨ Role.opens k = .opens .annot := by
    by_cases hshape : shape = .field
    · have hfits := h.fits
      rw [hshape] at hfits
      exact .inr (.inr (by rw [beq_iff_eq.mp hfits]))
    · exact .inl hshape
  obtain ⟨e, he, rfl, hgrows⟩ := readLine_effect _ cur hd h.plain h.role hfield hread
  obtain ⟨ns, hnoted, htrails⟩ := Noted.of_grows hgrows fun n hn => hn.opened?
  exact ⟨cur', d', k.label d, e, ns, hread, (Noted.hear_opening he hd label).append hnoted, he, htrails⟩

/-- Without open fields the stack follows the outline: behind it the same constructs are open, and all of it has
been delivered. -/
theorem proceeds_aligned (h : o.WellNested (strict validate comments) shape) (hopen : o.openFields = 0)
    (hd : d.declined = []) (rest : Lines) (cur : Cursor) :
    ∃ cur' d' ns, Proceeds (strict validate comments) ⟨⟨o.lines.map some ++ rest⟩, cur, taped shape label st, d⟩
        ⟨⟨rest⟩, cur', taped shape label st, d'⟩ ∧
      Noted ns d d' ∧ o.Delivered label ns := by
  induction o generalizing shape label st d rest cur with
  | done => exact ⟨cur, d, [], .refl _, .nil d, .done label⟩
  | remark line tail ih =>
    obtain ⟨hremark, htail⟩ := h
    obtain ⟨cur₁, d₁, heq, hgrows⟩ := @outcome_readLine_remark validate comments shape label line
      (tail.lines.map some ++ rest) cur hremark st d
    obtain ⟨ns, hnoted, hown⟩ := Noted.of_grows hgrows fun n hn => hn.opened?
    obtain ⟨cur', d', ms, hgo, hnoted', hdelivered⟩ := ih htail hopen (hnoted.declined.trans hd) rest cur₁
    exact ⟨cur', d', ns ++ ms, (Proceeds.of_eq heq).trans hgo, hnoted.append hnoted', .remark hown hdelivered⟩
  | statement line more tail ih =>
    obtain ⟨hstatement, htail⟩ := h
    obtain ⟨cur₁, d₁, ns, hgo₁, hnoted, hown⟩ :=
      hstatement.proceeds hd (tail.lines.map some ++ rest) cur
    obtain ⟨cur', d', ms, hgo, hnoted', hdelivered⟩ := ih htail hopen (hnoted.declined.trans hd) rest cur₁
    refine ⟨cur', d', ns ++ ms, ?_, hnoted.append hnoted', .statement hown hdelivered⟩
    simpa [lines] using hgo₁.trans hgo
  | closed k header body finish tail ihb iht =>
    obtain ⟨hheader, hbody, hend, htail⟩ := h
    obtain ⟨hopen₁, hopen₂⟩ := Nat.add_eq_zero_iff.mp hopen
    obtain ⟨cur₁, d₁, inner, e, ns, hread, hnoted₁, he, htrails⟩ :=
      hheader.proceeds hd (body.lines.map some ++ some finish :: (tail.lines.map some ++ rest)) cur
    obtain ⟨cur₂, d₂, bs, hgo₂, hnoted₂, hdelivered₂⟩ :=
      ihb hbody hopen₁ (hnoted₁.declined.trans hd) (some finish :: (tail.lines.map some ++ rest)) cur₁
    have hclose := @outcome_readLine_end validate comments k.shape inner finish
      (tail.lines.map some ++ rest) cur₂ k hend (taped shape label st) d₂
    have hnoted₃ := (hnoted₁.append hnoted₂).append (Noted.hear_close d₂ inner)
    obtain ⟨cur', d', ms, hgo, hnoted', hdelivered⟩ := iht htail hopen₂ (hnoted₃.declined.trans hd) rest _
    refine ⟨cur', d', _, ?_, hnoted₃.append hnoted', ?_⟩
    · simpa [lines] using ((Proceeds.of_ok hread).trans hgo₂).trans ((Proceeds.of_ok hclose).trans hgo)
    · simpa using Delivered.closed he htrails hdelivered₂ hdelivered
  | openField header tail ih => cases hopen

/-! ### Open fields -/

theorem IsHeader.leavesField (h : IsHeader r .classDef k line) (hk : k ≠ .annot) :
    LeavesField (Line.ofText line) := by
  have hrole := h.role
  unfold Line.role at hrole
  split at hrole
  · cases hrole
  · split at hrole
    · cases hrole
    · rename_i w ws hwords
      split at hrole
      · rename_i hdot
        refine ⟨w, ws, hwords, hdot, fun hname => ?_, fun hname => ?_⟩
        · rw [Role.ofDirective, hname] at hrole
          cases hrole
          exact hk rfl
        · rw [Role.ofDirective, hname] at hrole
          have hclose : Directive.ofName? Keyword.close.text = some .close := by decide
          rw [if_neg (by decide), hclose] at hrole
          dsimp only at hrole
          split at hrole <;> cases hrole
      · split at hrole <;> cases hrole

theorem IsStatement.leavesField (h : IsStatement r .classDef line more) (hne : (ofText line).cleaned ≠ "") :
    LeavesField (ofText line) := by
  obtain ⟨w, hhead, hdot, hclose⟩ := h.fits.resolve_left hne
  obtain ⟨ws, hwords⟩ : ∃ ws, (ofText line).words = w :: ws := by
    cases hwords : (ofText line).words with
    | nil => simp [hwords] at hhead
    | cons v ws => exact ⟨ws, by simpa [hwords] using hhead⟩
  have hrole := h.role
  rw [Line.role, if_neg hne, hwords] at hrole
  simp only [hdot, if_true] at hrole
  refine ⟨w, ws, hwords, hdot, fun hname => ?_, fun hname => ?_⟩
  · rw [Role.ofDirective, hname] at hrole
    cases hrole
  · apply hclose
    have hlist : w.toList = '.' :: w.toList.drop 1 := by
      cases hw : w.toList with
      | nil => simp [hw] at hdot
      | cons c cs => simpa [hw] using hdot
    rw [← String.toList_inj, hlist, ← hname]
    simp

theorem Accepts.more_eq_nil (h : Accepts (strict validate comments) shape line more) (hplain : IsPlain line)
    (hblank : (ofText line).cleaned = "") : more = [] := by
  obtain ⟨t, ht, hsource⟩ := h [] .start "" [] (.empty []) rfl
  have hread := @outcome_readLine_blank validate comments line (more.map some) .start hplain hblank
    [.node (.recorder shape "")] (.empty [])
  simp only [append_nil, map_cons] at ht
  rw [hread] at ht
  cases ht
  simpa using hsource

theorem openFields_eq_zero {shape : Shape} (h : o.WellNested r shape)
    (hshape : shape ≠ .classDef) : o.openFields = 0 := by
  induction o generalizing shape with
  | done => rfl
  | remark line tail ih => exact ih h.2 hshape
  | statement line more tail ih => exact ih h.2 hshape
  | closed k header body finish tail ihb iht =>
    obtain ⟨hheader, hbody, -, htail⟩ := h
    have hk : k.shape ≠ .classDef := by
      have hfits := hheader.fits
      revert hfits hshape
      cases shape <;> cases k <;> decide
    exact Nat.add_eq_zero_iff.mpr ⟨ihb hbody hk, iht htail hshape⟩
  | openField header tail ih => exact absurd h.1 hshape

/-- The stack where the innermost constructs are classes, with a field above them that was left open if there
is one. -/
def straying (field? : Option String) (owners : List String) (st : List (Slot Listener)) : List (Slot Listener) :=
  field?.toList.map (fun l => .node (.recorder .field l)) ++ (owners.map (fun l => .node (.recorder .classDef l)) ++ st)

theorem straying_none_cons (owner : String) (owners : List String) :
    straying none (owner :: owners) st = .node (.recorder .classDef owner) :: straying none owners st := rfl

theorem straying_eq_cons (field? : Option String) (owner : String) (owners : List String) :
    ∃ shape label below, straying field? (owner :: owners) st = taped shape label below := by
  cases field? with
  | none => exact ⟨_, _, _, rfl⟩
  | some f => exact ⟨_, _, _, rfl⟩

theorem proceeds_leaving {line : String} (hplain : IsPlain line) (hleaves : LeavesField (ofText line))
    (field? : Option String) (owner : String) (owners : List String) (rest : Lines) (cur : Cursor) :
    Proceeds (strict validate comments) ⟨⟨some line :: rest⟩, cur, straying field? (owner :: owners) st, d⟩
      ⟨⟨some line :: rest⟩, cur, straying none (owner :: owners) st, d⟩ := by
  cases field? with
  | none => exact .refl _
  | some f => exact .of_eq (outcome_readLine_leaving rest cur hplain hleaves f owner _ d)

/-- The end of an inner class takes the innermost construct from the stack, a field that was left open or the
class itself; some class stays on the stack in any case. -/
theorem proceeds_end_of_class {line : String} (hend : IsEnd .innerClass line) (field? : Option String)
    (inner : String) (inners : List String) (owner : String) (owners : List String) (rest : Lines)
    (cur : Cursor) :
    ∃ cur' d' label owner' owners', Proceeds (strict validate comments)
        ⟨⟨some line :: rest⟩, cur, straying field? (inner :: inners ++ owner :: owners) st, d⟩
        ⟨⟨rest⟩, cur', straying none (owner' :: owners') st, d'⟩ ∧ Noted [.heard label .close none] d d' := by
  cases field? with
  | some f =>
    exact ⟨_, _, f, inner, inners ++ owner :: owners, .of_ok (outcome_readLine_end rest cur hend _ d), .hear_close d f⟩
  | none =>
    obtain ⟨owner', owners', howners⟩ : ∃ o os, inners ++ owner :: owners = o :: os := by
      cases inners with
      | nil => exact ⟨owner, owners, rfl⟩
      | cons i is => exact ⟨i, is ++ owner :: owners, rfl⟩
    refine ⟨⟨some (ofText line), (ofText line).words⟩, d.hear inner .close, inner, owner', owners', ?_,
      .hear_close d inner⟩
    rw [← howners]
    exact .of_ok (outcome_readLine_end rest cur hend _ d)

theorem ended_header {inner : String} {ns : List Note} (he : e.verb = k.verb) (htrails : ∀ n ∈ ns, n.Trails label inner) :
    (.heard label e (some (some inner)) :: ns).filterMap ended? = [] := by
  rw [filterMap_cons, ended?_opening he]
  exact filterMap_eq_nil_iff.mpr fun n hn => (htrails n hn).ended?

/-- Whatever fields are left open, a class is read to its last line, and as many ends are noted as are
written. -/
theorem proceeds_classes {o : Outline} (h : o.WellNested (strict validate comments) .classDef)
    (field? : Option String) (hfield : field? ≠ none → o.annotated = false) (hd : d.declined = []) (owner : String)
    (owners : List String) (rest : Lines) (cur : Cursor) :
    ∃ cur' d' field?' owner' owners' ns, Proceeds (strict validate comments)
        ⟨⟨o.lines.map some ++ rest⟩, cur, straying field? (owner :: owners) st, d⟩
        ⟨⟨rest⟩, cur', straying field?' (owner' :: owners') st, d'⟩ ∧
      Noted ns d d' ∧ (ns.filterMap ended?).length = o.ends := by
  induction o generalizing field? owner owners st d rest cur with
  | done => exact ⟨cur, d, field?, owner, owners, [], .refl _, .nil d, rfl⟩
  | remark line tail ih =>
    obtain ⟨hremark, htail⟩ := h
    obtain ⟨shape, label, below, hstack⟩ := @straying_eq_cons st field? owner owners
    obtain ⟨cur₁, d₁, heq, hgrows⟩ := @outcome_readLine_remark validate comments shape label line
      (tail.lines.map some ++ rest) cur hremark below d
    rw [← hstack] at heq
    obtain ⟨ns, hnoted, hown⟩ := Noted.of_grows hgrows fun n hn => hn.opened?
    obtain ⟨cur', d', field?', owner', owners', ms, hgo, hnoted', hends⟩ :=
      ih htail field? hfield (hnoted.declined.trans hd) owner owners rest cur₁
    refine ⟨cur', d', field?', owner', owners', ns ++ ms, (Proceeds.of_eq heq).trans hgo, hnoted.append hnoted', ?_⟩
    rw [filterMap_append, filterMap_eq_nil_iff.mpr fun n hn => (hown n hn).ended?]
    exact hends
  | statement line more tail ih =>
    obtain ⟨hstatement, htail⟩ := h
    by_cases hblank : (ofText line).cleaned = ""
    · obtain rfl := hstatement.accepted.more_eq_nil hstatement.plain hblank
      have hread := @outcome_readLine_blank validate comments line (tail.lines.map some ++ rest) cur
        hstatement.plain hblank (straying field? (owner :: owners) st) d
      have hfield' : field? ≠ none → tail.annotated = false := by
        intro hne
        simpa [annotated, hblank] using hfield hne
      obtain ⟨cur', d', field?', owner', owners', ms, hgo, hnoted, hends⟩ :=
        ih htail field? hfield' hd owner owners rest _
      exact ⟨cur', d', field?', owner', owners', ms, (Proceeds.of_ok hread).trans hgo, hnoted, hends⟩
    · obtain ⟨cur₁, d₁, ns, hgo₁, hnoted, hown⟩ :=
        @IsStatement.proceeds validate comments .classDef owner (straying none owners st) d line more hstatement hd
          (tail.lines.map some ++ rest) cur
      have hleave := @proceeds_leaving validate comments st d line hstatement.plain
        (hstatement.leavesField hblank) field? owner owners (more.map some ++ (tail.lines.map some ++ rest)) cur
      obtain ⟨cur', d', field?', owner', owners', ms, hgo, hnoted', hends⟩ :=
        ih htail none (fun hne => absurd rfl hne) (hnoted.declined.trans hd) owner owners rest cur₁
      refine ⟨cur', d', field?', owner', owners', ns ++ ms, ?_, hnoted.append hnoted', ?_⟩
      · have hall := hleave.trans (hgo₁.trans hgo)
        simpa [lines] using hall
      · rw [filterMap_append, filterMap_eq_nil_iff.mpr fun n hn => (hown n hn).ended?]
        exact hends
  | closed k header body finish tail ihb iht =>
    obtain ⟨hheader, hbody, hend, htail⟩ := h
    -- no field is open where the header is read
    have hleave : Proceeds (strict validate comments)
        ⟨⟨(closed k header body finish tail).lines.map some ++ rest⟩, cur,
          straying field? (owner :: owners) st, d⟩
        ⟨⟨(closed k header body finish tail).lines.map some ++ rest⟩, cur,
          straying none (owner :: owners) st, d⟩ := by
      by_cases hk : k = .annot
      · obtain rfl : field? = none := by
          cases field? with
          | none => rfl
          | some f => simp [annotated, hk] at hfield
        exact .refl _
      · exact proceeds_leaving hheader.plain (hheader.leavesField hk) field? owner owners _ cur
    obtain ⟨cur₁, d₁, inner, e, ns, hread, hnoted₁, he, htrails⟩ :=
      @IsHeader.proceeds validate comments .classDef owner (straying none owners st) d k header hheader hd
        (body.lines.map some ++ some finish :: (tail.lines.map some ++ rest)) cur
    have hd₁ := hnoted₁.declined.trans hd
    have hzero := ended_header he htrails
    -- behind its end, some class is innermost again
    obtain ⟨cur₃, d₃, owner₃, owners₃, bs, hgo₃, hnoted₃, hends₃⟩ :
        ∃ cur₃ d₃ owner₃ owners₃ bs, Proceeds (strict validate comments)
          ⟨⟨body.lines.map some ++ some finish :: (tail.lines.map some ++ rest)⟩, cur₁,
            .node (.recorder k.shape inner) :: straying none (owner :: owners) st, d₁⟩
          ⟨⟨tail.lines.map some ++ rest⟩, cur₃, straying none (owner₃ :: owners₃) st, d₃⟩ ∧
          Noted bs d₁ d₃ ∧ (bs.filterMap ended?).length = body.ends + 1 := by
      by_cases hk : k.shape = .classDef
      · obtain rfl : k = .innerClass := by cases k <;> first | rfl | cases hk
        obtain ⟨cur₂, d₂, field₂?, inner₂, inners₂, bs, hgo₂, hnoted₂, hends₂⟩ :=
          @ihb (straying none (owner :: owners) st) d₁ hbody none (fun hne => absurd rfl hne) hd₁ inner []
            (some finish :: (tail.lines.map some ++ rest)) cur₁
        obtain ⟨cur₃, d₃, label, owner₃, owners₃, hgo₃, hnoted₃⟩ :=
          @proceeds_end_of_class validate comments st d₂ finish hend field₂? inner₂ inners₂ owner owners
            (tail.lines.map some ++ rest) cur₂
        refine ⟨cur₃, d₃, owner₃, owners₃, bs ++ [.heard label .close none], ?_, hnoted₂.append hnoted₃, ?_⟩
        · refine Proceeds.trans hgo₂ ?_
          simpa [straying] using hgo₃
        · simp [filterMap_append, hends₂, ended?]
      · obtain ⟨cur₂, d₂, bs, hgo₂, hnoted₂, hdelivered⟩ :=
          proceeds_aligned hbody (openFields_eq_zero hbody hk) hd₁ (some finish :: (tail.lines.map some ++ rest)) cur₁
        have hclose := @outcome_readLine_end validate comments k.shape inner finish
          (tail.lines.map some ++ rest) cur₂ k hend (straying none (owner :: owners) st) d₂
        refine ⟨_, _, owner, owners, bs ++ [.heard inner .close none], hgo₂.trans (.of_ok hclose),
          hnoted₂.append (.hear_close d₂ inner), ?_⟩
        have hends := hdelivered.ended
        rw [openFields_eq_zero hbody hk] at hends
        simp [filterMap_append, hends, ended?]
    obtain ⟨cur', d', field?', owner', owners', ms, hgo, hnoted', hends⟩ :=
      iht htail none (fun hne => absurd rfl hne) (hnoted₃.declined.trans hd₁) owner₃ owners₃ rest cur₃
    refine ⟨cur', d', field?', owner', owners', _, ?_, (hnoted₁.append hnoted₃).append hnoted', ?_⟩
    · refine hleave.trans ?_
      simpa [lines, straying_none_cons owner] using (Proceeds.of_ok hread).trans (hgo₃.trans hgo)
    · rw [filterMap_append, filterMap_append, hzero]
      simp only [nil_append, length_append, hends₃, hends, ends]
  | openField header tail ih =>
    obtain ⟨-, hheader, hannotated, htail⟩ := h
    have hleave := @proceeds_leaving validate comments st d header hheader.plain
      (hheader.leavesField (by decide)) field? owner owners (tail.lines.map some ++ rest) cur
    obtain ⟨cur₁, d₁, inner, e, ns, hread, hnoted₁, he, htrails⟩ :=
      @IsHeader.proceeds validate comments .classDef owner (straying none owners st) d .field header hheader hd
        (tail.lines.map some ++ rest) cur
    obtain ⟨cur', d', field?', owner', owners', ms, hgo, hnoted', hends⟩ :=
      ih htail (some inner) (fun _ => hannotated) (hnoted₁.declined.trans hd) owner owners rest cur₁
    refine ⟨cur', d', field?', owner', owners', _, hleave.trans ((Proceeds.of_ok hread).trans hgo),
      hnoted₁.append hnoted', ?_⟩
    rw [filterMap_append, ended_header he htrails]
    exact hends

end Desk

/-! ### Whole sources -/

/-- The source of a class: its header, with the comments in front of it, and the outline of what is below. -/
structure ClassSource where
  heading : List String
  body : Outline

namespace ClassSource

open Desk Reader

/-- The lines of a source. -/
def lines (c : ClassSource) : List String := c.heading ++ c.body.lines

/-- The header can be read, and every line below it plays its part. -/
structure WellNested (r : Reader Listener Desk) (c : ClassSource) : Prop where
  heading : ∀ (rest : List (Option String)) (cur : Cursor) (label : String) (d : Desk), ∃ t,
    outcome r.openClass ⟨⟨c.heading.map some ++ rest⟩, cur, [.node (.recorder .classDef label)], d⟩ = (.ok (), t) ∧
      t.source = ⟨rest⟩
  body : c.body.WellNested r .classDef

/-- The notes that recorders should have of a source: the recorder of the class notes its header, everything
below is delivered to the construct that encloses it, and the end of the class is noted last. No two
constructs share a recorder. -/
structure Enclosed (c : ClassSource) (root : String) (ns : List Note) : Prop where
  delivered : ∃ hs bs, ns = hs ++ bs ++ [.heard root .close none] ∧ (∀ n ∈ hs, n.Own root) ∧ c.body.Delivered root bs
  nodup : (root :: ns.filterMap opened?).Nodup

section

variable {c : ClassSource} {root : String} {ns : List Note}

/-- One end is noted for the class, one for every construct that is closed, and one for every field that is left
open. -/
theorem Enclosed.length_ended (h : c.Enclosed root ns) :
    (ns.filterMap ended?).length = c.body.ends + c.body.openFields + 1 := by
  obtain ⟨hs, bs, rfl, hown, hdelivered⟩ := h.delivered
  have hended : hs.filterMap ended? = [] := filterMap_eq_nil_iff.mpr fun n hn => (hown n hn).ended?
  simp only [filterMap_append, hended, nil_append, length_append, hdelivered.ended]
  rfl

end

section Visits

variable {validate comments : Bool} {input : Input} {c : ClassSource} {root : String} {d : Desk}

theorem outcome_visit_proceeds {src : Source} {k cur : Cursor} {shape : Shape} {label : String}
    {st : Slots Listener} {d' : Desk} {s : Session Listener Desk} (hp : input.isPresent = true)
    (hsource : input.source = .ok ⟨c.lines.map some⟩)
    (hopen : outcome (strict validate comments).openClass
      ⟨⟨c.lines.map some⟩, k, [.node (.recorder .classDef root)], d⟩ = (.ok (), s))
    (hgo : Proceeds (strict validate comments) s ⟨⟨[]⟩, cur, taped shape label st, d'⟩) :
    outcome ((strict validate comments).visit input (some (.recorder .classDef root))) ⟨src, k, [], d⟩
      = (.ok (), ⟨⟨[]⟩, cur, taped shape label st, d'.hear label .close⟩) := by
  have hbegin : outcome ((strict validate comments).begin input (.recorder .classDef root)) ⟨src, k, [], d⟩
      = (.ok (), s) := by
    rw [outcome_begin _ hp hsource rfl]
    exact hopen
  have hholds : contract.holds s := by
    refine (governs _ _).holds_begin (fun lines slot hslot n hn => ?_) hbegin
    obtain rfl := mem_singleton.mp hslot
    cases hn
    exact ⟨_, _, rfl⟩
  have hstop := hgo .endOfSource _ ⟨_, .refl _, rfl⟩
  rw [visit_eq, bind_ok _ hbegin, (governs _ _).outcome_readBody hholds hstop]
  have hears : shape.hears Event.close.verb = true := by cases shape <;> rfl
  exact outcome_tell ⟨[]⟩ cur st d' hears

theorem WellNested.openClass (h : c.WellNested (strict validate comments)) (k : Cursor) :
    ∃ cur₁ d₁ hs, outcome (strict validate comments).openClass
        ⟨⟨c.lines.map some⟩, k, [.node (.recorder .classDef root)], d⟩
        = (.ok (), ⟨⟨c.body.lines.map some ++ []⟩, cur₁, [.node (.recorder .classDef root)], d₁⟩) ∧
      Noted hs d d₁ ∧ ∀ n ∈ hs, n.Own root := by
  obtain ⟨⟨_, cur₁, _, d₁⟩, hopen, rfl⟩ := h.heading (c.body.lines.map some ++ []) k root d
  have hkept := (@conducts validate comments .classDef root []).openClass
    ⟨⟨c.heading.map some ++ (c.body.lines.map some ++ [])⟩, k, [.node (.recorder .classDef root)], d⟩ rfl
  obtain rfl : _ = _ := hkept.holds_of hopen
  obtain ⟨hs, hnoted, hown⟩ := Noted.of_grows (hkept.leads_of hopen).2 fun n hn => hn.opened?
  refine ⟨cur₁, d₁, hs, ?_, hnoted, hown⟩
  simpa [lines] using hopen

/-- A well nested source is delivered to the constructs that enclose its lines, with one end for every recorder,
exactly if no field in it is left open. -/
theorem visit_encloses_iff (h : c.WellNested (strict validate comments)) (hp : input.isPresent = true)
    (hsource : input.source = .ok ⟨c.lines.map some⟩) (hd : d.declined = []) (src : Source) (k : Cursor) :
    (∃ t ns, outcome ((strict validate comments).visit input (some (.recorder .classDef s!"class#{d.recorders}")))
        ⟨src, k, [], { d with recorders := d.recorders + 1 }⟩ = (.ok (), t) ∧
      t.world.notes = ns.reverse ++ d.notes ∧ c.Enclosed s!"class#{d.recorders}" ns) ↔ c.body.openFields = 0 := by
  obtain ⟨cur₁, d₁, hs, hopen, hnoted₁, hown⟩ :=
    @WellNested.openClass validate comments c s!"class#{d.recorders}" { d with recorders := d.recorders + 1 } h k
  have hd₁ := hnoted₁.declined.trans hd
  constructor
  · -- as many ends are noted as are written, and one for the end of the source
    rintro ⟨t, ns, hvisit, hnotes, henclosed⟩
    obtain ⟨cur₂, d₂, field?, owner, owners, ms, hgo, hnoted₂, hends⟩ :=
      @proceeds_classes validate comments [] d₁ c.body h.body none (fun hne => absurd rfl hne) hd₁
        s!"class#{d.recorders}" [] [] cur₁
    obtain ⟨shape, label, below, hstack⟩ := @straying_eq_cons [] field? owner owners
    rw [hstack] at hgo
    rw [outcome_visit_proceeds hp hsource hopen hgo] at hvisit
    cases hvisit
    have hall := (hnoted₁.append hnoted₂).append (.hear_close d₂ label)
    have hns : ns = hs ++ ms ++ [.heard label .close none] := by
      have heq := hall.notes.symm.trans hnotes
      exact (reverse_inj.mp (append_cancel_right heq)).symm
    have hended : hs.filterMap Note.ended? = [] := filterMap_eq_nil_iff.mpr fun n hn => (hown n hn).ended?
    have hlength := henclosed.length_ended
    have hclose : [Note.heard label .close none].filterMap Note.ended? = [label] := rfl
    simp only [hns, filterMap_append, hended, hclose, nil_append, length_append, hends, length_singleton] at hlength
    omega
  · intro hzero
    obtain ⟨cur₂, d₂, bs, hgo, hnoted₂, hdelivered⟩ := proceeds_aligned h.body hzero hd₁ [] cur₁
    have hall := (hnoted₁.append hnoted₂).append (.hear_close d₂ s!"class#{d.recorders}")
    refine ⟨_, _, outcome_visit_proceeds hp hsource hopen hgo, hall.notes, ⟨⟨hs, bs, rfl, hown, hdelivered⟩, ?_⟩⟩
    exact ((Numbered.single "class" d.recorders).append hall.numbered).nodup

end Visits

/-! ### A field that is left open -/

theorem accepts_field : Accepts (strict true false) .classDef ".field public x:I\n" [] := by
  intro lines cur label st d hd
  have hhalves : Text.halves ":" "x:I" = .ok ("x", "I") := by rfl
  have hends : Ends ".field public x:I" [".field", "public", "x:I"] [".field", "public", "x:I"]
      (taped .classDef label st) d reader.statement
      (.node (.recorder .field (Construct.field.label d)) :: taped .classDef label st)
      (d.hear label (.field (.text "x") (.int 1) (.text "I") (some .absent))) := by
    refine .directive .field (by decide) rfl (by decide) (.inl rfl) (.atLineEnd ?_)
    have hpublic : ∀ k ∈ ["public"], Access.isKeyword k = true := by decide
    refine .passKeyword .field (Ends.accessFlags hpublic (w := "x:I") (by decide) ?_)
    refine .bind (fun src => Read.outcome_nextWord ..) (.attempt hhalves (.checkDescriptor (by decide) ?_))
    refine .bind (fun src => Read.outcome_hasWord ..) (.bind (fun src => outcome_pure _ _) ?_)
    refine .bind (fun src => Read.outcome_top ..) ?_
    exact .open rfl rfl hd (.of_outcome fun src => rfl)
  obtain ⟨cur', hread⟩ := hends ⟨lines⟩
  have hstart := @outcome_readLine _ _ (strict true false) ".field public x:I\n" _ (by decide) (by decide)
    (ofString_ofText _) (by decide) lines cur (taped .classDef label st) d
  exact ⟨_, hstart.trans hread, rfl⟩

/-- A class with two fields, one with an end of its own and one that is left open. -/
def twoFields : ClassSource where
  heading := [".class public LA;\n"]
  body := .closed .field ".field public x:I\n" .done ".end field\n" (.openField ".field public x:I\n" .done)

theorem outcome_openClass_public (lines : Lines) (cur : Cursor) (label : String) (d : Desk) :
    ∃ t, outcome reader.openClass
      ⟨⟨some ".class public LA;\n" :: lines⟩, cur, [.node (.recorder .classDef label)], d⟩ = (.ok (), t) ∧
        t.source = ⟨lines⟩ := by
  have hline : ofText ".class public LA;\n" = lineOf ".class public LA;" [".class", "public", "LA;"] := by
    decide +kernel
  have hnext := @outcome_nextLine _ _ reader ".class public LA;\n" _ (by decide) (by decide)
    (ofString_ofText _) lines cur [.node (.recorder .classDef label)] d
  rw [hline] at hnext
  refine ⟨⟨⟨lines⟩, ⟨some (lineOf ".class public LA;" [".class", "public", "LA;"]), ["LA;"]⟩,
    [.node (.recorder .classDef label)], d.hear label (.classDef (.text "LA;") (.int (Access.flags ["public"])))⟩,
    ?_, rfl⟩
  rw [openClass, outcome_bind, outcome_tryCatch, bind_ok _ hnext]
  dsimp only [outcome_pure]
  rfl

theorem wellNested_twoFields : twoFields.WellNested (strict true false) where
  heading := outcome_openClass_public
  body := by
    have hheader : IsHeader (strict true false) .classDef .field ".field public x:I\n" :=
      ⟨⟨by decide, by decide⟩, by decide, by decide, accepts_field⟩
    exact ⟨hheader, trivial, ⟨⟨by decide, by decide⟩, by decide, by decide⟩, rfl, hheader, rfl, trivial⟩

/-- The field without an end of its own is never told its end. -/
theorem visit_twoFields_not_enclosed : twoFields.WellNested (strict true false) ∧ twoFields.body.openFields = 1 ∧
      ¬ ∃ t ns, outcome ((strict true false).visit
          (.text ".class public LA;\n.field public x:I\n.end field\n.field public x:I\n")
          (some (.recorder .classDef s!"class#{0}"))) ⟨⟨[]⟩, .start, [], { empty [] with recorders := 1 }⟩
            = (.ok (), t) ∧
        t.world.notes = ns.reverse ++ [] ∧ twoFields.Enclosed s!"class#{0}" ns := by
  refine ⟨wellNested_twoFields, rfl, fun henclosed => ?_⟩
  have hzero := (visit_encloses_iff (d := .empty []) wellNested_twoFields (by decide) (by decide +kernel) rfl ⟨[]⟩
    .start).mp henclosed
  cases hzero

/-- Behind an inner class whose last field is left open, a method of the outer class is delivered to the inner
one: the end of the inner class went to the field. The outer class is never told its end. -/
theorem visit_misplaces_method :
    let end_ := outcome ((strict true false).visit
      (.text (".class public LA;\n.class public LB;\n.field public x:I\n.end class\n" ++
        ".method public m()V\n.end method\n"))
      (some (.recorder .classDef "class#0"))) ⟨⟨[]⟩, .start, [], { empty [] with recorders := 1 }⟩
    end_.1.toOption = some () ∧ (end_.2.world.notes.reverse.map fun
        | .heard label e _ => (label, e.verb)
        | .copied line _ => (line, .comment))
        = [("class#0", .classDef), ("class#0", .innerClass), ("inner#1", .field), ("field#2", .close),
          ("inner#1", .method), ("method#3", .close), ("inner#1", .close)] := by
  decide +kernel

end ClassSource

end Dalvik
