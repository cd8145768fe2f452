import Dalvik.Proofs.Statements

/-!
# Statements with operands

The operands of an instruction are written with commas between them, the arguments of a call also with
braces around them, and the labels of an error handler in braces with dots. Each of these lists is found
again in the words of the line (`operandsIn_withCommas`, `Desk.Told.parts_arguments`,
`Desk.Told.handlerLabels`). With them every statement of a method is read as it was written
(`Desk.Told.step`).
-/

namespace Dalvik

open Dalvik.Text Reader List Option Listing

variable {xs ws : List String} {w : String} {x : String}

namespace Text

theorem between_append {a b : Char} (hab : b ≠ a) {front inside : List Char} (ha : a ∉ front) (hb : b ∉ front)
    (hinside : b ∉ inside) (rest : List Char) :
    between a b (front ++ a :: (inside ++ b :: rest)) = inside := by
  have hstart : find? [a] (front ++ a :: (inside ++ b :: rest)) = some front.length := find?_append ha _
  have hstop : find? [b] (front ++ a :: (inside ++ b :: rest)) = some (front ++ a :: inside).length := by
    have hnot : b ∉ front ++ a :: inside := by
      simp only [mem_append, mem_cons]
      rintro (hmem | rfl | hmem)
      · exact hb hmem
      · exact hab rfl
      · exact hinside hmem
    simpa using find?_append hnot rest
  rw [between, hstart, hstop]
  dsimp only [Option.getD]
  rw [show front ++ a :: (inside ++ b :: rest) = (front ++ a :: inside) ++ b :: rest by simp, take_left,
    show front ++ a :: inside = (front ++ [a]) ++ inside by simp]
  exact drop_left' (by simp)

theorem dropBoth_wording {ws : List String} (h : IsWording ws) {pre post : List Char}
    (hpre : ∀ c ∈ pre, isBlank c = true) (hpost : ∀ c ∈ post, isBlank c = true) :
    dropBoth isBlank (pre ++ (" ".intercalate ws).toList ++ post) = (" ".intercalate ws).toList := by
  obtain ⟨hfirst, hlast, -⟩ := h.ends
  have hhead : ∀ c, ((" ".intercalate ws).toList ++ post).head? = some c → isBlank c = false := by
    intro c hc
    rw [head?_append, head?_eq_some_head h.toList_ne_nil, some_or, ← head?_eq_some_head h.toList_ne_nil] at hc
    exact (hfirst c hc).1
  rw [dropBoth, append_assoc, Line.dropStart_append hpre hhead, Line.dropEnd_append hpost hlast]

theorem ofList_dropBoth_word {x : String} (h : IsBare x) {post : List Char} (hpost : ∀ c ∈ post, isBlank c = true) :
    String.ofList (dropBoth isBlank (' ' :: x.toList ++ post)) = x := by
  have hword : IsWording [x] := .inl h
  have hdrop := @dropBoth_wording [x] hword [' '] post (by decide) hpost
  rw [String.intercalate_singleton, singleton_append] at hdrop
  rw [hdrop, String.ofList_toList]

end Text

/-! ### Lists of operands -/

/-- The words of a list that is written with commas. -/
def withCommas : List String → List String
  | [] => []
  | [x] => [x]
  | x :: y :: xs => (x ++ ",") :: withCommas (y :: xs)

theorem withCommas_cons (x : String) (h : xs ≠ []) : withCommas (x :: xs) = (x ++ ",") :: withCommas xs := by
  cases xs with
  | nil => exact absurd rfl h
  | cons y ys => rfl

theorem withCommas_ne_nil (h : xs ≠ []) : withCommas xs ≠ [] := by
  match xs with
  | [x] => simp [withCommas]
  | x :: y :: xs => simp [withCommas]

theorem mem_withCommas (hw : w ∈ withCommas xs) : w ∈ xs ∨ ∃ x ∈ xs, w = x ++ "," := by
  induction xs with
  | nil => cases hw
  | cons x xs ih =>
    cases xs with
    | nil => exact .inl hw
    | cons y ys =>
      rcases mem_cons.mp hw with rfl | hw
      · exact .inr ⟨x, mem_cons_self, rfl⟩
      · exact (ih hw).imp (mem_cons_of_mem _) fun ⟨z, hz, hzw⟩ => ⟨z, mem_cons_of_mem _ hz, hzw⟩

theorem intercalate_withCommas (xs : List String) : ", ".intercalate xs = " ".intercalate (withCommas xs) := by
  induction xs with
  | nil => rfl
  | cons x xs ih =>
    cases xs with
    | nil => rfl
    | cons y ys =>
      have hne : withCommas (y :: ys) ≠ [] := withCommas_ne_nil (by simp)
      rw [withCommas, String.intercalate_cons_of_ne_nil hne, String.intercalate_cons_cons, ih]
      simp [String.append_assoc]

theorem dropLast_withCommas (xs : List String) : (withCommas xs).dropLast = xs.dropLast.map (· ++ ",") := by
  induction xs with
  | nil => rfl
  | cons x xs ih =>
    cases xs with
    | nil => rfl
    | cons y ys =>
      rw [withCommas, dropLast_cons_of_ne_nil (withCommas_ne_nil (by simp)), ih]
      rfl

theorem getLast?_withCommas (xs : List String) : (withCommas xs).getLast? = xs.getLast? := by
  induction xs with
  | nil => rfl
  | cons x xs ih =>
    cases xs with
    | nil => rfl
    | cons y ys =>
      have hne : withCommas (y :: ys) ≠ [] := withCommas_ne_nil (by simp)
      obtain ⟨z, zs, hz⟩ := exists_cons_of_ne_nil hne
      rw [withCommas, hz, getLast?_cons_cons, ← hz, ih, getLast?_cons_cons]

theorem Reader.isRow_append (h : IsWording (w :: ws)) {stop : String} (hstop : stop = "" ∨ stop = "\n") :
    IsRow (w ++ " " ++ " ".intercalate ws ++ stop).toList (w :: ws) := by
  have htail : stop.toList = [] ∨ stop.toList = ['\n'] := by
    rcases hstop with rfl | rfl
    · exact .inl rfl
    · exact .inr rfl
  cases ws with
  | nil => exact ⟨h, [' '], stop.toList, by simp, by simp, htail⟩
  | cons v vs => exact ⟨h, [], stop.toList, by simp [String.intercalate_cons_cons], by simp, htail⟩

theorem mem_intercalate_comma {c : Char} (hc : c ∈ (", ".intercalate xs).toList) :
    c = ',' ∨ c = ' ' ∨ ∃ x ∈ xs, c ∈ x.toList := by
  induction xs with
  | nil => simp at hc
  | cons x xs ih =>
    cases xs with
    | nil => exact .inr (.inr ⟨x, mem_cons_self, by simpa using hc⟩)
    | cons y ys =>
      simp only [String.intercalate_cons_cons, String.toList_append, mem_append] at hc
      rcases hc with (hc | hc) | hc
      · exact .inr (.inr ⟨x, mem_cons_self, hc⟩)
      · have : c = ',' ∨ c = ' ' := by simpa using hc
        exact this.imp id .inl
      · exact (ih hc).imp id (Or.imp id fun ⟨z, hz, hcz⟩ => ⟨z, mem_cons_of_mem _ hz, hcz⟩)

theorem not_mem_intercalate_comma {c : Char} (hcomma : c ≠ ',') (hspace : c ≠ ' ') (hxs : ∀ x ∈ xs, c ∉ x.toList) :
    c ∉ (", ".intercalate xs).toList := fun hc =>
  (mem_intercalate_comma hc).elim hcomma fun h => h.elim hspace fun ⟨x, hx, hmem⟩ => hxs x hx hmem

theorem isWording_cons (hw : IsBare w) (hfront : ∀ x ∈ ws.dropLast, IsBare x)
    (hlast : ∀ x, ws.getLast? = some x → IsLast x) : IsWording (w :: ws) := by
  induction ws generalizing w with
  | nil => exact .inl hw
  | cons x ws ih =>
    cases ws with
    | nil => exact ⟨hw, hlast x rfl⟩
    | cons y ys =>
      exact ⟨hw, ih (hfront x mem_cons_self) (fun z hz => hfront z (mem_cons_of_mem _ hz)) hlast⟩

theorem isWording_of_bare (h : ∀ x ∈ w :: ws, IsBare x) : IsWording (w :: ws) :=
  isWording_cons (h w mem_cons_self) (fun x hx => h x (mem_cons_of_mem _ (mem_of_mem_dropLast hx)))
    fun x hx => .inl (h x (mem_cons_of_mem _ (mem_of_getLast? hx)))

/-- What an operand is: a word without commas, or a text in quotes. -/
def IsOperand (x : String) : Prop :=
  Document.isOperand x = true ∨ ∃ s, IsQuotable s ∧ x = inQuotes s

theorem operandsIn_cons (hne : x ≠ "") (hlast : x.toList.getLast? ≠ some ',') {tail : String} (htail : tail = "" ∨ tail = ",")
    (hhere : (if !isQuotedWord x.toList then (parts [','] x.toList).map String.ofList else [x]) = xs) (ws : List String) :
    operandsIn (· == ',') ((x ++ tail) :: ws) = (operandsIn (· == ',') ws).map (xs ++ ·) := by
  have hstrip : dropEnd (· == ',') (x ++ tail).toList = x.toList := by
    rw [String.toList_append]
    refine Line.dropEnd_append (by rcases htail with rfl | rfl <;> simp) fun c hc => ?_
    rw [hc, ne_eq, some.injEq] at hlast
    simpa using hlast
  have hsome : x.toList.isEmpty = false := by simpa using hne
  rw [operandsIn, hstrip, hsome, String.ofList_toList, hhere]
  rfl

theorem IsOperand.operandsIn (hx : IsOperand x) {tail : String} (htail : tail = "" ∨ tail = ",") (ws : List String) :
    operandsIn (· == ',') ((x ++ tail) :: ws) = (operandsIn (· == ',') ws).map (x :: ·) := by
  rcases hx with hx | ⟨s, -, rfl⟩
  · rw [Document.isOperand, Bool.and_eq_true, Bool.not_eq_true', contains_eq_mem, decide_eq_false_iff_not,
      decide_eq_true_eq] at hx
    have hparts : parts [','] x.toList = [x.toList] := by
      rw [parts, cutAt_of_find? (Line.find?_eq_none hx.2)]
      rfl
    exact @operandsIn_cons [x] x hx.1.1 (fun hlast => hx.2 (mem_of_getLast? hlast)) _ htail (by simp [hparts]) ws
  · have hquoted : isQuotedWord (inQuotes s).toList = true := by simp [isQuotedWord, inQuotes, oneOf]
    have hlast : (inQuotes s).toList.getLast? = some '"' := by
      rw [Line.toList_inQuotes, getLast?_cons, getLast?_append]
      rfl
    exact @operandsIn_cons [_] (inQuotes s) (by simp [inQuotes]) (by simp [hlast]) _ htail (by simp [hquoted]) ws

theorem Document.Operands.texts_cases (xs : Operands) :
    (∀ x ∈ xs.texts, IsOperand x) ∧ ∀ x ∈ xs.texts.dropLast, IsBare x := by
  obtain ⟨plain, quote?⟩ := xs
  have hplain : ∀ x ∈ plain.map (·.1), isOperand x = true := forall_mem_map.mpr fun y _ => y.2
  have hbare : ∀ x ∈ plain.map (·.1), IsBare x := by
    intro x hx
    have := hplain x hx
    rw [isOperand, Bool.and_eq_true, decide_eq_true_eq] at this
    exact this.1
  cases quote? with
  | none =>
    simp only [Operands.texts, toList_none, map_nil, append_nil]
    exact ⟨fun x hx => .inl (hplain x hx), fun x hx => hbare x (mem_of_mem_dropLast hx)⟩
  | some q =>
    simp only [Operands.texts, toList_some, map_cons, map_nil, dropLast_concat, mem_append, mem_singleton]
    refine ⟨?_, hbare⟩
    rintro x (hx | rfl)
    · exact .inl (hplain x hx)
    · exact .inr ⟨q.1, q.2, rfl⟩

theorem IsOperand.isLast (hx : IsOperand x) : IsLast x := by
  rcases hx with hx | ⟨s, hs, rfl⟩
  · rw [Document.isOperand, Bool.and_eq_true, decide_eq_true_eq] at hx
    exact .inl hx.1
  · exact .inr ⟨s, "", hs, .inl rfl, by simp⟩

theorem IsBare.comma (hx : IsBare x) : IsBare (x ++ ",") := by
  refine ⟨fun hempty => ?_, fun c hc => ?_, ?_⟩
  · simpa using congrArg String.toList hempty
  · rw [String.toList_append, mem_append] at hc
    rcases hc with hc | hc
    · exact hx.2.1 c hc
    · obtain rfl : c = ',' := by simpa using hc
      decide
  · rw [String.toList_append, head?_append, head?_eq_some_head hx.toList_ne_nil, some_or,
      ← head?_eq_some_head hx.toList_ne_nil]
    exact hx.2.2

section

variable {xs : List String} (hall : ∀ x ∈ xs, IsOperand x)

include hall

theorem operandsIn_spaced : operandsIn (· == ',') xs = some xs := by
  induction xs with
  | nil => rfl
  | cons x xs ih =>
    have h := (hall x mem_cons_self).operandsIn (.inl rfl) xs
    rw [String.append_empty, ih fun y hy => hall y (mem_cons_of_mem _ hy)] at h
    exact h

theorem operandsIn_withCommas : operandsIn (· == ',') (withCommas xs) = some xs := by
  induction xs with
  | nil => rfl
  | cons x xs ih =>
    have hrest := fun y hy => hall y (mem_cons_of_mem _ hy)
    by_cases hne : xs = []
    · subst hne
      exact operandsIn_spaced hall
    · rw [withCommas_cons x hne, (hall x mem_cons_self).operandsIn (.inr rfl), ih hrest]
      rfl

end

theorem Datum.texts?_texts (xs : List String) : (texts xs).texts? = some xs := by
  have hmap : (xs.map text).mapM text? = some xs := by
    induction xs with
    | nil => rfl
    | cons x xs ih => simp [ih, text?]
  simp [texts?, texts, items?, hmap]

theorem Listing.joined_texts (sep : String) (xs : List String) : joined sep (.texts xs) = .ok (sep.intercalate xs) := by
  rw [joined, Datum.texts?_texts]

/-- The event of an instruction that has operands, and is no call and no plain jump. -/
def Event.ofOperands (name : String) (xs : List String) : Event :=
  if "return".toList.isPrefixOf name.toList then .ret (.text (variantOf name)) (.texts xs)
  else .instruction (.text name) (.texts xs)

namespace Reader

variable {ν σ : Type} {r : Reader ν σ} {n : ν} {raw name : String} {ws pending xs : List String}
  {st st' : Slots ν} {d d' : σ} {k : List String → Read ν σ Unit}

section

variable (hannot : r.hasShape (.node n) .annot = false) (hmethod : r.hasShape (.node n) .method = true)
  (hne : name ≠ "") (hname : Document.isOpening name = true)

include hannot hmethod hne hname

theorem outcome_statement_instruction (src : Source) (line? : Option Line) :
    outcome r.statement ⟨src, ⟨line?, name :: pending⟩, .node n :: st, d⟩
      = outcome r.instruction ⟨src, ⟨line?, name :: pending⟩, .node n :: st, d⟩ := by
  have hhead : name.toList.head? = some (name.toList.head (by simpa using hne)) := head?_eq_some_head _
  simp only [Document.isOpening, hhead, Bool.and_eq_true, bne_iff_ne, ne_eq, some.injEq] at hname
  rw [outcome_statement_plain _ pending src _ hhead hname.1 hname.2, if_neg (by simp [hannot]), if_pos hmethod]

variable (hinvoke : "invoke".toList.isPrefixOf name.toList = false) (hgoto : name ≠ "goto")
  (hxs : operandsIn (· == ',') pending = some xs)

include hinvoke hgoto hxs

theorem outcome_statement_operands (src : Source) (line? : Option Line) :
    outcome r.statement ⟨src, ⟨line?, name :: pending⟩, .node n :: st, d⟩
      = outcome (r.tell (Event.ofOperands name xs) >>= fun _ => r.publishComment)
          ⟨src, ⟨line?, []⟩, .node n :: st, d⟩ := by
  have hoperands : outcome (operands (· == ',') : Read ν σ _) ⟨src, ⟨line?, pending⟩, .node n :: st, d⟩
      = (.ok xs, ⟨src, ⟨line?, []⟩, .node n :: st, d⟩) := by
    rw [operands, outcome_bind, outcome_get]
    dsimp only
    rw [hxs]
    rfl
  have hpresent (body : Read ν σ Unit) (k : Cursor) :
      outcome (r.unlessMuted body) ⟨src, k, .node n :: st, d⟩ = outcome body ⟨src, k, .node n :: st, d⟩ := rfl
  rw [outcome_statement_instruction hannot hmethod hne hname, instruction, hpresent,
    bind_ok _ (Read.outcome_nextWord ..), if_neg (Bool.eq_false_iff.mp hinvoke), Event.ofOperands]
  by_cases hreturn : "return".toList.isPrefixOf name.toList = true
  · rw [if_pos hreturn, if_pos hreturn, bind_ok _ hoperands]
  · rw [if_neg hreturn, if_neg hreturn, if_neg (by simpa using hgoto), bind_ok _ hoperands]

end

namespace Ends

theorem instruction (hannot : r.hasShape (.node n) .annot = false) (hmethod : r.hasShape (.node n) .method = true)
    (hne : name ≠ "") (hname : Document.isOpening name = true)
    (h : Ends raw ws (name :: pending) (.node n :: st) d r.instruction st' d') :
    Ends raw ws (name :: pending) (.node n :: st) d r.statement st' d' := by
  intro src
  rw [outcome_statement_instruction hannot hmethod hne hname]
  exact h src

theorem withOperands (hannot : r.hasShape (.node n) .annot = false)
    (hmethod : r.hasShape (.node n) .method = true) (hne : name ≠ "") (hname : Document.isOpening name = true)
    (hinvoke : "invoke".toList.isPrefixOf name.toList = false) (hgoto : name ≠ "goto")
    (hxs : operandsIn (· == ',') pending = some xs)
    (h : Ends raw ws [] (.node n :: st) d (r.tell (Event.ofOperands name xs) >>= fun _ => r.publishComment) st' d') :
    Ends raw ws (name :: pending) (.node n :: st) d r.statement st' d' := by
  intro src
  rw [outcome_statement_operands hannot hmethod hne hname hinvoke hgoto hxs]
  exact h src

theorem braced {inside : List Char} (h : between '\x7b' '\x7d' (" ".intercalate ws).toList = inside)
    (hk : Ends raw ws pending st d (k ((parts [','] inside).map fun p => String.ofList (dropBoth isBlank p))) st' d') :
    Ends raw ws pending st d (braced >>= k) st' d' := by
  refine .bind (fun src => ?_) hk
  rw [Reader.braced, outcome_bind, ← h]
  rfl

end Ends

end Reader

namespace Desk

open Document

namespace Told

theorem goto (target : Label) : Told .method (Step.goto target).event := by
  obtain ⟨hbare, -, hname⟩ := colon_label target
  have hwords : IsWording ["goto", ":" ++ target.1] := ⟨by decide, .inl hbare⟩
  refine told_of_row rfl rfl (fun _ => rfl) (fun _ => rfl)
    (isRow_of_eq hwords (by simp [Datum.plain])) fun raw label st d => ?_
  refine .instruction rfl rfl (by decide) (by decide) (.unlessMuted (.bind (fun src => Read.outcome_nextWord ..) ?_))
  refine .bind (fun src => Read.outcome_peekWord ..) ?_
  rw [hname]
  exact .hear rfl

theorem instruction (name : { s : String // isInstructionName s = true }) (xs : Operands) :
    Told .method (Step.instruction name xs).event := by
  obtain ⟨name, hname⟩ := name
  simp only [isInstructionName, Bool.and_eq_true, decide_eq_true_eq, bne_iff_ne, Bool.not_eq_true'] at hname
  obtain ⟨⟨⟨⟨hbare, hopening⟩, hgoto⟩, hinvoke⟩, hreturn⟩ := hname
  obtain ⟨hall, hfront⟩ := xs.texts_cases
  have hwords : IsWording (name :: withCommas xs.texts) := by
    refine isWording_cons hbare (fun x hx => ?_) fun x hx => ?_
    · rw [dropLast_withCommas] at hx
      obtain ⟨y, hy, rfl⟩ := mem_map.mp hx
      exact (hfront y hy).comma
    · rw [getLast?_withCommas] at hx
      exact (hall x (mem_of_getLast? hx)).isLast
  have hstatement : ∀ indent, statement .method indent (.instruction (.text name) (.texts xs.texts))
      = .ok (some ⟨1, name ++ " " ++ ", ".intercalate xs.texts, "\n"⟩) := by
    intro indent
    rw [Listing.statement, Listing.ofMethod, Listing.joined_texts]
    rfl
  have hrow : IsRow (name ++ " " ++ ", ".intercalate xs.texts ++ "\n").toList (name :: withCommas xs.texts) := by
    rw [intercalate_withCommas]
    exact isRow_append hwords (.inr rfl)
  refine told_of_row rfl rfl (fun _ => rfl) hstatement hrow fun raw label st d => ?_
  refine .withOperands rfl rfl hbare.1 hopening hinvoke hgoto (operandsIn_withCommas hall) ?_
  rw [Event.ofOperands, if_neg (Bool.eq_false_iff.mp hreturn)]
  exact .hear rfl

theorem variantOf_append {name : String} {stem : List Char} (hname : name.toList = stem ++ ['-'])
    (hstem : '-' ∉ stem) (variant : String) : variantOf (name ++ variant) = variant := by
  have htext : (name ++ variant).toList = stem ++ '-' :: variant.toList := by simp [hname]
  rw [variantOf, htext, find?_append hstem]
  simp

theorem isBare_append {name : String} (hname : IsBare name) {variant : String} (h : isVariant variant = true) :
    IsBare (name ++ variant) := by
  refine ⟨fun hempty => ?_, fun c hc => ?_, ?_⟩
  · have := congrArg String.toList hempty
    rw [String.toList_append] at this
    exact hname.toList_ne_nil (append_eq_nil_iff.mp this).1
  · rw [String.toList_append, mem_append] at hc
    rcases hc with hc | hc
    · exact hname.2.1 c hc
    · have hchar := all_eq_true.mp h c hc
      simp only [isPlainChar, Bool.and_eq_true, Bool.not_eq_true', bne_iff_ne] at hchar
      exact ⟨hchar.1.1.1, hchar.1.1.2⟩
  · rw [String.toList_append, head?_append, head?_eq_some_head hname.toList_ne_nil, some_or,
      ← head?_eq_some_head hname.toList_ne_nil]
    exact hname.2.2

variable (variant : { s : String // isVariant s = true })

theorem ret (xs : Operands) : Told .method (Step.ret variant xs).event := by
  obtain ⟨variant, hvariant⟩ := variant
  obtain ⟨name, hreturns, hbare, hinvoke, hreturn, hopening, hname⟩ : ∃ name,
      returnText (.text variant) = name ∧ IsBare name ∧
      "invoke".toList.isPrefixOf name.toList = false ∧ "return".toList.isPrefixOf name.toList = true ∧
      isOpening name = true ∧ variantOf name = variant := by
    by_cases hempty : variant = ""
    · subst hempty
      exact ⟨"return", rfl, by decide, by decide, by decide, by decide, by decide⟩
    · have hname : "return-".toList = "return".toList ++ ['-'] := by decide
      refine ⟨"return-" ++ variant, ?_, isBare_append (by decide) hvariant, by simp [isPrefixOf], by simp,
        by simp [isOpening], variantOf_append hname (by decide) variant⟩
      simp [returnText, Datum.holds, Datum.plain, hempty]
  obtain ⟨hall, hfront⟩ := xs.texts_cases
  have hwords : IsWording (name :: xs.texts) :=
    isWording_cons hbare hfront fun x hx => (hall x (mem_of_getLast? hx)).isLast
  have hstatement : ∀ indent, statement .method indent (.ret (.text variant) (.texts xs.texts))
      = .ok (some ⟨1, name ++ " " ++ " ".intercalate xs.texts, ""⟩) := by
    intro indent
    rw [Listing.statement, Listing.ofMethod, Listing.joined_texts, hreturns]
    rfl
  refine told_of_row rfl rfl (fun _ => rfl) hstatement (isRow_append hwords (.inl rfl)) fun raw label st d => ?_
  have hgoto : name ≠ "goto" := by
    rintro rfl
    exact absurd hreturn (by decide)
  refine .withOperands rfl rfl hbare.1 hopening hinvoke hgoto (operandsIn_spaced hall) ?_
  rw [Event.ofOperands, if_pos hreturn, hname]
  exact .hear rfl

theorem not_mem_label (l : Label) : ' ' ∉ l.1.toList ∧ '\x7d' ∉ l.1.toList := by
  have hall := all_eq_true.mp (Bool.and_eq_true _ _ ▸ l.2).1
  exact ⟨fun hc => absurd (hall _ hc) (by decide), fun hc => absurd (hall _ hc) (by decide)⟩

/-- The words of an error handler. -/
abbrev handlerWords (kw : Keyword) (type : String) (start stop target : Label) : List String :=
  [directive kw, type, "\x7b", ":" ++ start.1, "..", ":" ++ stop.1, "\x7d", ":" ++ target.1]

theorem isWording_handler (kw : Keyword) {type : String} (htype : isTypeName type = true)
    (start stop target : Label) : IsWording (handlerWords kw type start stop target) :=
  ⟨(isBare_directive kw).1, isBare_typeName htype, by decide, (colon_label start).1, by decide,
    (colon_label stop).1, by decide, .inl (colon_label target).1⟩

theorem handlerLabels {kw : Keyword} {type : String} (htype : isTypeName type = true)
    (start stop target : Label) {raw : String} {pending : List String} {st st' : Slots Listener}
    {d d' : Desk} {k : Datum → Read Listener Desk Unit}
    (hk : Ends raw (handlerWords kw type start stop target) pending st d (k (.texts [start, stop, target])) st' d') :
    Ends raw (handlerWords kw type start stop target) pending st d (handlerLabels >>= k) st' d' := by
  obtain ⟨hbareStart, -, hstart⟩ := colon_label start
  obtain ⟨hbareStop, -, hstop⟩ := colon_label stop
  obtain ⟨-, -, htarget⟩ := colon_label target
  have hrange : IsWording [":" ++ start.1, "..", ":" ++ stop.1] := ⟨hbareStart, by decide, .inl hbareStop⟩
  have htext : (" ".intercalate (handlerWords kw type start stop target)).toList
      = (directive kw ++ " " ++ type ++ " ").toList ++ '\x7b' ::
        ((' ' :: (" ".intercalate [":" ++ start.1, "..", ":" ++ stop.1]).toList ++ [' '])
          ++ '\x7d' :: (" :" ++ target.1).toList) := by
    simp [String.intercalate_cons_cons]
  have hfront : ∀ c, c = '\x7b' ∨ c = '\x7d' → c ∉ (directive kw ++ " " ++ type ++ " ").toList := by
    intro c hc hmem
    have hkw : c ∉ (directive kw).toList := by
      rcases hc with rfl | rfl <;> cases kw <;> decide
    have hmark : c ∈ typeMarks ∧ c ≠ ' ' := by rcases hc with rfl | rfl <;> decide
    simp only [String.toList_append, mem_append] at hmem
    rcases hmem with ((hmem | hmem) | hmem) | hmem
    · exact hkw hmem
    · exact hmark.2 (by simpa using hmem)
    · exact (not_mem_typeName htype hmem).2 hmark.1
    · exact hmark.2 (by simpa using hmem)
  have hinside : '\x7d' ∉ ' ' :: (" ".intercalate [":" ++ start.1, "..", ":" ++ stop.1]).toList ++ [' '] := by
    simp [String.intercalate_cons_cons, not_mem_label start, not_mem_label stop]
  have hbetween : dropBoth isBlank (between '\x7b' '\x7d'
        (" ".intercalate (handlerWords kw type start stop target)).toList)
      = [' '].intercalate [(":" ++ start.1).toList, "..".toList, (":" ++ stop.1).toList] := by
    rw [htext, between_append (by decide) (hfront _ (.inl rfl)) (hfront _ (.inr rfl)) hinside,
      ← singleton_append, dropBoth_wording hrange (by decide) (by decide)]
    simp
  have hparts := @parts_intercalate ' ' [(":" ++ start.1).toList, "..".toList, (":" ++ stop.1).toList]
    (by simp [not_mem_label start, not_mem_label stop]) (by simp)
  have hlast : (lineOf raw (handlerWords kw type start stop target)).words.getLast? = some (":" ++ target.1) :=
    rfl
  refine .bind (fun src => ?_) hk
  rw [Reader.handlerLabels, outcome_bind, Read.outcome_cleaned]
  dsimp only
  rw [hbetween, hparts]
  rw [bind_ok _ (Read.outcome_lastWord src pending st d hlast)]
  simp only [String.ofList_toList, hstart, hstop, htarget]
  rfl

theorem catching (type : TypeName) (start stop target : Label) :
    Told .method (Step.catching type start stop target).event := by
  refine told_of_row rfl rfl (fun _ => rfl) (fun _ => rfl)
    (isRow_of_eq (isWording_handler .catching type.2 start stop target) (by simp [Datum.plain])) fun raw label st d => ?_
  refine .directive .catching (by decide) rfl (by decide) (.inl rfl) (.unlessMuted ?_)
  exact .checkDescriptor (Descriptor.isDescriptor_typeName type.2) (handlerLabels type.2 start stop target (.hear rfl))

theorem catchingAll (start stop target : Label) : Told .method (Step.catchingAll start stop target).event := by
  have htype : isTypeName anyError = true := by decide
  refine told_of_row rfl rfl (fun _ => rfl) (fun _ => rfl)
    (isRow_of_eq_break (isWording_handler .catchingAll htype start stop target) (by simp [Datum.plain]))
    fun raw label st d => ?_
  exact .directive .catchingAll (by decide) rfl (by decide) (.inl rfl)
    (.unlessMuted (handlerLabels htype start stop target (.hear rfl)))

theorem parts_arguments {xs : List String} (hne : xs ≠ []) (hall : ∀ x ∈ xs, isArgument x = true) :
    (parts [','] (' ' :: (", ".intercalate xs).toList ++ [' '])).map
      (fun p => String.ofList (dropBoth isBlank p)) = xs := by
  have hoperand : ∀ x ∈ xs, IsBare x ∧ ',' ∉ x.toList := by
    intro x hx
    have h := (Bool.and_eq_true _ _ ▸ hall x hx).1
    simpa [isOperand] using h
  clear hall
  induction xs with
  | nil => exact absurd rfl hne
  | cons x xs ih =>
    obtain ⟨hbare, hcomma⟩ := hoperand x mem_cons_self
    cases xs with
    | nil =>
      have hparts : parts [','] (' ' :: x.toList ++ [' ']) = [' ' :: x.toList ++ [' ']] :=
        cutAt_of_find? (Line.find?_eq_none (by simp [hcomma])) []
      rw [String.intercalate_singleton, hparts, map_cons, map_nil, ofList_dropBoth_word hbare (by decide)]
    | cons y ys =>
      have htext : ' ' :: (", ".intercalate (x :: y :: ys)).toList ++ [' ']
          = (' ' :: x.toList) ++ ',' :: (' ' :: (", ".intercalate (y :: ys)).toList ++ [' ']) := by
        simp [String.intercalate_cons_cons]
      have hparts : parts [','] (' ' :: (", ".intercalate (x :: y :: ys)).toList ++ [' '])
          = (' ' :: x.toList) :: parts [','] (' ' :: (", ".intercalate (y :: ys)).toList ++ [' ']) := by
        rw [htext]
        exact cutAt_append (by simp [hcomma]) [] _
      have hword := @ofList_dropBoth_word x hbare [] (by simp)
      rw [append_nil] at hword
      rw [hparts, map_cons, hword, ih (by simp) fun z hz => hoperand z (mem_cons_of_mem _ hz)]

/-- The words of a call. -/
abbrev callWords (name : String) (xs : List String) (target : String) : List String :=
  name :: "\x7b" :: (withCommas xs ++ ["\x7d,", target])

theorem intercalate_callWords (name : String) {xs : List String} (hne : xs ≠ []) (target : String) :
    " ".intercalate (callWords name xs target) = name ++ " \x7b " ++ ", ".intercalate xs ++ " \x7d, " ++ target := by
  rw [String.intercalate_cons_cons, String.intercalate_cons_of_ne_nil (by simp),
    String.intercalate_append_of_ne_nil (withCommas_ne_nil hne) (by simp), ← intercalate_withCommas]
  simp [← String.toList_inj]

theorem isBare_of_isArgument {x : String} (h : isArgument x = true) : IsBare x := by
  have := (Bool.and_eq_true _ _ ▸ h).1
  rw [isOperand, Bool.and_eq_true, decide_eq_true_eq] at this
  exact this.1

theorem isBare_target {owner callee : String} (howner : isTypeName owner = true) (hcallee : isCallee callee = true) :
    IsBare (owner ++ "->" ++ callee) := by
  have hchars := all_eq_true.mp (Bool.and_eq_true _ _ ▸ hcallee).1
  have hbare := isBare_typeName howner
  refine ⟨fun hempty => ?_, fun c hc => ?_, ?_⟩
  · have := congrArg String.toList hempty
    simp at this
  · simp only [String.toList_append, mem_append] at hc
    rcases hc with (hc | hc) | hc
    · exact hbare.2.1 c hc
    · have : c = '-' ∨ c = '>' := by simpa using hc
      rcases this with rfl | rfl <;> decide
    · simpa using hchars c hc
  · rw [String.append_assoc, String.toList_append, head?_append,
      head?_eq_some_head hbare.toList_ne_nil, some_or, ← head?_eq_some_head hbare.toList_ne_nil]
    exact hbare.2.2

section Call

variable {name : String} {xs : List String} {target : String} (hall : ∀ x ∈ xs, isArgument x = true)

include hall

theorem isWording_callWords (hname : IsBare name) (htarget : IsBare target) : IsWording (callWords name xs target) := by
  have hargs : ∀ x ∈ withCommas xs, IsBare x := by
    intro x hx
    rcases mem_withCommas hx with hx | ⟨y, hy, rfl⟩
    · exact isBare_of_isArgument (hall x hx)
    · exact (isBare_of_isArgument (hall y hy)).comma
  refine isWording_of_bare fun x hx => ?_
  simp only [mem_cons, mem_append, not_mem_nil, or_false] at hx
  rcases hx with rfl | rfl | hx | rfl | rfl
  · exact hname
  · decide
  · exact hargs x hx
  · decide
  · exact htarget

theorem between_callWords (hne : xs ≠ []) (hname : name.toList.all isPlainChar = true) :
    between '\x7b' '\x7d' (" ".intercalate (callWords name xs target)).toList
      = ' ' :: (", ".intercalate xs).toList ++ [' '] := by
  have htext : (" ".intercalate (callWords name xs target)).toList
      = (name ++ " ").toList ++ '\x7b' :: ((' ' :: (", ".intercalate xs).toList ++ [' '])
        ++ '\x7d' :: (", " ++ target).toList) := by
    simp [intercalate_callWords name hne target]
  have hfront : ∀ c, isPlainChar c = false → c ≠ ' ' → c ∉ (name ++ " ").toList := by
    intro c hc hspace hmem
    rw [String.toList_append, mem_append] at hmem
    rcases hmem with hmem | hmem
    · rw [all_eq_true.mp hname c hmem] at hc
      exact absurd hc (by decide)
    · exact hspace (by simpa using hmem)
  have hinside : '\x7d' ∉ ' ' :: (", ".intercalate xs).toList ++ [' '] := by
    have hitems := not_mem_intercalate_comma (c := '\x7d') (by decide) (by decide) fun x hx hmem =>
      absurd (all_eq_true.mp (Bool.and_eq_true _ _ ▸ hall x hx).2 _ hmem) (by decide)
    simpa using hitems
  rw [htext, between_append (by decide) (hfront _ (by decide) (by decide)) (hfront _ (by decide) (by decide)) hinside]

end Call

theorem call (first : { s : String // isArgument s = true })
    (rest : List { s : String // isArgument s = true }) (owner : TypeName)
    (callee : { s : String // isCallee s = true }) :
    Told .method (Step.call variant first rest owner callee).event := by
  obtain ⟨variant, hvariant⟩ := variant
  obtain ⟨owner, howner⟩ := owner
  obtain ⟨callee, hcallee⟩ := callee
  obtain ⟨xs, hxs⟩ : ∃ xs, (first :: rest).map (·.1) = xs := ⟨_, rfl⟩
  have hne : xs ≠ [] := by rw [← hxs]; simp
  have hall : ∀ x ∈ xs, isArgument x = true := by
    intro x hx
    rw [← hxs] at hx
    obtain ⟨y, -, rfl⟩ := mem_map.mp hx
    exact y.2
  have hname : IsBare ("invoke-" ++ variant) := isBare_append (by decide) hvariant
  have hstatement : ∀ indent, statement .method indent
      (Step.call ⟨variant, hvariant⟩ first rest ⟨owner, howner⟩ ⟨callee, hcallee⟩).event
      = .ok (some ⟨1, "invoke-" ++ variant ++ " \x7b " ++ ", ".intercalate xs ++ " \x7d, " ++ owner ++ "->"
        ++ callee, "\n"⟩) := by
    intro indent
    rw [Listing.statement, Step.event, Listing.ofMethod, Listing.joined_texts, hxs]
    rfl
  refine told_of_row rfl rfl (fun _ => rfl) hstatement
    (isRow_of_eq_break (isWording_callWords hall hname (isBare_target howner hcallee))
      (by simp [intercalate_callWords _ hne])) fun raw label st d => ?_
  refine .instruction rfl rfl hname.1 (by simp [isOpening]) (.unlessMuted (.bind (fun src => Read.outcome_nextWord ..) ?_))
  rw [if_pos (by simp)]
  have hplain : ("invoke-" ++ variant).toList.all isPlainChar = true := by
    rw [String.toList_append, all_append, Bool.and_eq_true]
    exact ⟨by decide, hvariant⟩
  have hstem : "invoke-".toList = "invoke".toList ++ ['-'] := by decide
  have harrow : '>' ∉ owner.toList := fun hmem => (not_mem_typeName howner hmem).2 (by decide)
  have hoccurs : occurs ['-', '>'] callee.toList = false :=
    (Bool.not_eq_true' _).mp (Bool.and_eq_true _ _ ▸ hcallee).2
  have hlast : (callWords ("invoke-" ++ variant) xs (owner ++ "->" ++ callee)).getLast?
      = some (owner ++ "->" ++ callee) := by
    rw [callWords, ← cons_append, ← cons_append, getLast?_append]
    rfl
  refine .braced (between_callWords hall hne hplain) (.lastWord hlast (.attempt (halves_arrow harrow hoccurs)
    (.checkDescriptor (Descriptor.isDescriptor_typeName howner) ?_)))
  rw [parts_arguments hne hall, variantOf_append hstem (by decide), Step.event, hxs]
  exact .hear rfl

theorem step (s : Step) : Told .method s.event := by
  cases s with
  | label name => exact label name
  | line n => exact line n
  | goto target => exact goto target
  | instruction name xs => exact instruction name xs
  | parameter register name => exact parameter register name
  | restart register => exact restart register
  | locals n => exact locals n
  | registers n => exact registers n
  | prologue => exact prologue
  | catching type start stop target => exact catching type start stop target
  | catchingAll start stop target => exact catchingAll start stop target
  | ret variant xs => exact ret variant xs
  | call variant first rest owner callee => exact call variant first rest owner callee

end Told

end Desk

end Dalvik
