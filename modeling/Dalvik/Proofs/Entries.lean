import Dalvik.Proofs.Headings

/-!
# Values of annotations

A value of an annotation is one line with its name, an equals sign and a word. A list of values runs over
several lines: a line with an open brace, one line for each value, and a line with the closing brace
(`Desk.elementRows`). Reading it moves from line to line, so the number of lines that are left has to be
known (`Desk.length_lines_elementRows`); the values are collected by an induction over these lines
(`Desk.outcome_listedValues`). Every entry is read as it was written (`Desk.Told.entry`).
-/

namespace Dalvik

open Dalvik.Text Reader String Sheet Read

variable {name x tail : String} {xs : List String} {cs rest : List Char}

namespace Desk

open Document

variable {label : String}

theorem outcome_statement_entry (hname : isEntryName name = true) (ws : List String) (src : Source)
    (line? : Option Line) (st : Slots Listener) (d : Desk) :
    outcome reader.statement ⟨src, ⟨line?, name :: ws⟩, taped .annot label st, d⟩
      = outcome (reader.value (2 * (name :: ws).length + 2)) ⟨src, ⟨line?, name :: ws⟩, taped .annot label st, d⟩ := by
  simp only [isEntryName, isOpening, Bool.and_eq_true, decide_eq_true_eq, bne_iff_ne] at hname
  obtain ⟨⟨hbare, hopening⟩, -⟩ := hname
  have hhead : name.toList.head? = some (name.toList.head hbare.toList_ne_nil) := List.head?_eq_some_head _
  rw [hhead] at hopening
  simp only [ne_eq, Option.some.injEq] at hopening
  have hshape : reader.hasShape (.node (.recorder .annot label)) .annot = true := rfl
  rw [outcome_statement_plain _ _ src _ hhead hopening.1 hopening.2, if_pos hshape]

theorem outcome_statement_value (hname : isEntryName name = true) {sign : String} {c : Char}
    (hx : x.toList.head? = some c) (hdot : c ≠ '.') (rest : List String) (src : Source) (line? : Option Line)
    (st : Slots Listener) (d : Desk) :
    outcome reader.statement ⟨src, ⟨line?, name :: sign :: x :: rest⟩, taped .annot label st, d⟩
      = outcome (reader.plainValue name) ⟨src, ⟨line?, x :: rest⟩, taped .annot label st, d⟩ := by
  rw [outcome_statement_entry hname]
  unfold value
  rw [bind_ok _ (outcome_nextWord ..), bind_ok _ (outcome_nextWord ..),
    bind_ok _ (outcome_peekWord ..), bind_ok _ (outcome_firstChar hx _),
    if_neg (by simpa using hdot)]

theorem entryName_cases (h : isEntryName name = true) : IsBare name ∧ '\x7b' ∉ name.toList ∧ '\x7d' ∉ name.toList := by
  simp only [isEntryName, Bool.and_eq_true, decide_eq_true_eq, List.all_eq_true] at h
  exact ⟨h.1.1, fun hc => absurd (h.2 _ hc) (by decide), fun hc => absurd (h.2 _ hc) (by decide)⟩

theorem ends_value {label raw : String} {st : Slots Listener} {d : Desk} (hname : isEntryName name = true) {v : String} {c : Char} (hc : v.toList.head? = some c)
    (hdot : c ≠ '.') (hbrace : '\x7b' ∉ v.toList) :
    Ends raw [name, "=", v] [name, "=", v] (taped .annot label st) d reader.statement
      (taped .annot label st) (d.hear label (.value (.text name) (.text v))) := by
  obtain ⟨-, hopen, -⟩ := entryName_cases hname
  have hcontains : (" ".intercalate [name, "=", v]).toList.contains '\x7b' = false := by
    simp [hopen, hbrace, intercalate_cons_cons]
  have hmuted : Slot.isMuted .annot (Slot.node (Listener.recorder .annot label)) = false := rfl
  have hread : Ends raw [name, "=", v] [v] (taped .annot label st) d (reader.plainValue name)
      (taped .annot label st) (d.hear label (.value (.text name) (.text v))) := by
    refine .bind (fun src => rfl) (.bind (fun src => outcome_cleaned ..) ?_)
    simp only [hmuted, hcontains, Bool.false_eq_true, if_false]
    refine .bind (fun src => rfl) (.bind (fun src => outcome_peekWord ..) ?_)
    exact .of_outcome fun src => outcome_tell src _ st d rfl
  intro src
  rw [outcome_statement_value hname hc hdot]
  exact hread src

namespace Told

theorem value (name : { s : String // isEntryName s = true })
    (v : Word (isEntryWord · = true) fun s => '\x7b' ∉ s.toList) : Told .annot (Entry.value name v).event := by
  obtain ⟨name, hname⟩ := name
  obtain ⟨hbare, -⟩ := entryName_cases hname
  obtain ⟨hlast, ⟨c, hhead, hdot⟩, hfree⟩ : IsLast v.text ∧
      (∃ c, v.text.toList.head? = some c ∧ c ≠ '.') ∧ '\x7b' ∉ v.text.toList := by
    cases v with
    | plain s hs =>
      simp only [isEntryWord, Bool.and_eq_true, decide_eq_true_eq, bne_iff_ne, Bool.not_eq_true',
        List.contains_eq_mem, decide_eq_false_iff_not] at hs
      obtain ⟨⟨hs, hdot⟩, hfree⟩ := hs
      have hhead := List.head?_eq_some_head hs.toList_ne_nil
      exact ⟨.inl hs, ⟨_, hhead, fun h => hdot (by rw [hhead, h])⟩, hfree⟩
    | quote s hs =>
      exact ⟨.inr ⟨s, "", hs.1, .inl rfl, by simp [Word.text]⟩, ⟨'"', by simp [Word.text, inQuotes], by decide⟩,
        by simp [Word.text, inQuotes, hs.2]⟩
  have hwords : IsWording [name, "=", v.text] := ⟨hbare, by decide, hlast⟩
  exact told_of_row rfl rfl (fun _ => rfl) (fun _ => rfl) (isRow_of_eq hwords (by simp [Datum.plain]))
    fun raw label st d => ends_value hname hhead hdot hfree

end Told

/-! ### Lists of values -/

/-- A text that stands on a line of its own in a list of values. -/
structure IsElement (x : String) : Prop where
  last : IsLast x
  comma : IsLast (x ++ ",")
  head : x.toList.head? ≠ some '\x7d'
  ends : ∀ c, x.toList.getLast? = some c → c ≠ '\x7d' ∧ c ≠ ','

theorem isElement_text (w : Word (isElementWord · = true) fun _ => True) : IsElement w.text := by
  cases w with
  | plain s hs =>
    simp only [isElementWord, Bool.and_eq_true, decide_eq_true_eq, bne_iff_ne] at hs
    obtain ⟨⟨⟨hs, hhead⟩, hbrace⟩, hcomma⟩ := hs
    refine ⟨.inl hs, .inl hs.comma, hhead, fun c hc => ?_⟩
    rw [Word.text] at hc
    rw [hc] at hbrace hcomma
    exact ⟨fun h => hbrace (by rw [h]), fun h => hcomma (by rw [h])⟩
  | quote s hs =>
    refine ⟨.inr ⟨s, "", hs.1, .inl rfl, by simp [Word.text]⟩, .inr ⟨s, ",", hs.1, .inr rfl, rfl⟩,
      by simp [Word.text, inQuotes], fun c hc => ?_⟩
    have hlast : (inQuotes s).toList.getLast? = some '"' := by
      rw [inQuotes, toList_append, List.getLast?_append]
      rfl
    rw [Word.text, hlast] at hc
    obtain rfl := Option.some.inj hc
    decide

theorem IsElement.isLast (h : IsElement x) (htail : tail = "" ∨ tail = ",") : IsLast (x ++ tail) := by
  rcases htail with rfl | rfl
  · rw [append_empty]
    exact h.last
  · exact h.comma

theorem IsElement.line {x : String} (h : IsElement x) {tail : String} (htail : tail = "" ∨ tail = ",") :
    ∃ start stop, (x ++ tail).toList.head? = some start ∧ (x ++ tail).toList.getLast? = some stop ∧
      start ≠ '\x7d' ∧ stop ≠ '\x7d' := by
  have hne : x.toList ≠ [] := by simpa using h.last.ends.1
  have hhead := List.head?_eq_some_head hne
  have hlast := List.getLast?_eq_some_getLast hne
  have hstart : x.toList.head hne ≠ '\x7d' := fun he => h.head (by rw [hhead, he])
  rcases htail with rfl | rfl
  · rw [append_empty]
    exact ⟨_, _, hhead, hlast, hstart, (h.ends _ hlast).1⟩
  · refine ⟨_, ',', ?_, ?_, hstart, by decide⟩
    · rw [toList_append, List.head?_append, hhead, Option.some_or]
    · rw [toList_append, List.getLast?_append]
      rfl

theorem IsElement.trimEnd_comma (h : IsElement x) (htail : tail = "" ∨ tail = ",") :
    trimEnd (· == ',') (x ++ tail) = x := by
  have hpost : ∀ c ∈ tail.toList, (c == ',') = true := by
    rcases htail with rfl | rfl <;> simp
  have hlast : ∀ c, x.toList.getLast? = some c → (c == ',') = false := fun c hc => by
    simpa using (h.ends c hc).2
  rw [trimEnd, toList_append, Line.dropEnd_append hpost hlast, ofList_toList]

/-- The lines of a list of values behind its first one. -/
def elementRows (m m' : List Char) : List String → List Char
  | [] => row m' ["\x7d"] []
  | [x] => row m [x] [] ++ '\n' :: row m' ["\x7d"] []
  | x :: y :: xs => row m [x ++ ","] [] ++ '\n' :: elementRows m m' (y :: xs)

theorem elementRows_cons (m m' : List Char) (x : String) (xs : List String) : ∃ tail, (tail = "" ∨ tail = ",") ∧
      elementRows m m' (x :: xs) = row m [x ++ tail] [] ++ '\n' :: elementRows m m' xs := by
  cases xs with
  | nil => exact ⟨"", .inl rfl, by simp [elementRows]⟩
  | cons y ys => exact ⟨",", .inr rfl, rfl⟩

theorem toList_valueList (m m' : String) (x : String) (xs : List String) :
    (m ++ (",\n" ++ m).intercalate (x :: xs) ++ "\n" ++ m' ++ "\x7d").toList
      = elementRows m.toList m'.toList (x :: xs) := by
  induction xs generalizing x with
  | nil => simp [elementRows, row]
  | cons y ys ih =>
    rw [elementRows, ← ih]
    simp [row]

theorem outcome_listedValues_succ {w : String} {start stop : Char} (hstart : w.toList.head? = some start)
    (hstop : w.toList.getLast? = some stop) (raw : String) (n : Nat) (src : Source) (st : Slots Listener)
    (d : Desk) :
    outcome (reader.listedValues false (n + 1)) ⟨src, ⟨some (lineOf raw [w]), [w]⟩, st, d⟩
      = if stop = '\x7d' ∨ start = '\x7d' then (.ok [], ⟨src, ⟨some (lineOf raw [w]), [w]⟩, st, d⟩)
        else outcome (do
            reader.nextLine
            pure (trimEnd (· == ',') w :: (← reader.listedValues false n)))
          ⟨src, ⟨some (lineOf raw [w]), [w]⟩, st, d⟩ := by
  rw [listedValues, bind_ok _ (outcome_cleaned ..), bind_ok _ (outcome_cleaned ..)]
  dsimp only
  rw [intercalate_singleton, hstart, hstop]
  simp only [Bool.or_eq_true, beq_iff_eq]
  split
  · rfl
  · rfl

theorem isWording_brace : IsWording ["\x7d"] := .inl (by decide)

section Elements

variable {m m' : List Char} (hm : ∀ c ∈ m, c = ' ') (hm' : ∀ c ∈ m', c = ' ')

include hm hm'

variable (hxs : ∀ x ∈ xs, IsElement x) (hcs : Follows (elementRows m m' xs) cs rest)

include hxs hcs

theorem length_lines_elementRows : xs.length < (Source.ofChars cs).lines.length := by
  induction xs generalizing cs with
  | nil =>
    obtain ⟨stop, -, hsource⟩ := ofChars_row isWording_brace hm' (by simp) hcs
    simp [hsource]
  | cons x xs ih =>
    obtain ⟨tail, htail, hrows⟩ := elementRows_cons m m' x xs
    rw [hrows] at hcs
    obtain ⟨mid, hfirst, hmore⟩ := hcs.split
    have hx : IsWording [x ++ tail] := (hxs x List.mem_cons_self).isLast htail
    obtain ⟨stop, -, hsource⟩ := ofChars_row hx hm (by simp) hfirst
    have := ih (fun y hy => hxs y (List.mem_cons_of_mem _ hy)) hmore
    simp [hsource, this]

theorem outcome_listedValues (k : Cursor) (st : Slots Listener) (d : Desk) :
    ∃ mid k₁ k₂, xs.length ≤ (Source.ofChars mid).lines.length ∧
      outcome reader.nextLine ⟨.ofChars cs, k, st, d⟩ = (.ok (), ⟨.ofChars mid, k₁, st, d⟩) ∧
      ∀ n, xs.length < n → outcome (reader.listedValues false n) ⟨.ofChars mid, k₁, st, d⟩
        = (.ok xs, ⟨.ofChars rest, k₂, st, d⟩) := by
  induction xs generalizing cs k with
  | nil =>
    obtain ⟨raw, hnext⟩ := outcome_nextLine_row reader isWording_brace hm' (by simp) hcs k st d
    refine ⟨rest, _, ⟨some (lineOf raw ["\x7d"]), ["\x7d"]⟩, Nat.zero_le _, hnext, fun n hn => ?_⟩
    obtain ⟨n, rfl⟩ := Nat.exists_eq_succ_of_ne_zero (Nat.ne_of_gt hn)
    have hbrace : ("\x7d" : String).toList.head? = some '\x7d' ∧ ("\x7d" : String).toList.getLast? = some '\x7d' := by
      decide
    exact (outcome_listedValues_succ hbrace.1 hbrace.2 raw n (.ofChars rest) st d).trans (if_pos (.inl rfl))
  | cons x xs ih =>
    obtain ⟨tail, htail, hrows⟩ := elementRows_cons m m' x xs
    rw [hrows] at hcs
    obtain ⟨mid, hfirst, hmore⟩ := hcs.split
    have hx := hxs x List.mem_cons_self
    have hxs' := fun y hy => hxs y (List.mem_cons_of_mem _ hy)
    have hword : IsWording [x ++ tail] := hx.isLast htail
    obtain ⟨raw, hnext⟩ := outcome_nextLine_row reader hword hm (by simp) hfirst k st d
    obtain ⟨mid₂, k₁, k₂, -, hnext₂, hvalues⟩ := ih hxs' hmore ⟨some (lineOf raw [x ++ tail]), [x ++ tail]⟩
    refine ⟨mid, _, k₂, length_lines_elementRows hm hm' hxs' hmore, hnext, fun n hn => ?_⟩
    obtain ⟨n, rfl⟩ := Nat.exists_eq_succ_of_ne_zero (Nat.ne_of_gt (Nat.zero_lt_of_lt hn))
    obtain ⟨start, stop, hstart, hstop, hopen, hclose⟩ := hx.line htail
    rw [outcome_listedValues_succ hstart hstop, if_neg (by simp [hopen, hclose]), bind_ok _ hnext₂,
      bind_ok _ (hvalues n (by simpa using hn)), hx.trimEnd_comma htail]
    rfl

end Elements

theorem valueList_texts (indent : Int) (name x : String) (xs : List String) :
    Listing.valueList indent (.text name) (.texts (x :: xs)) = .ok ⟨1, name ++ " = \x7b\n" ++ margin (indent + 2)
        ++ (",\n" ++ margin (indent + 2)).intercalate (x :: xs) ++ "\n" ++ margin (indent + 1)
        ++ "\x7d", ""⟩ := by
  rw [Listing.valueList]
  rw [Listing.joined_texts]
  rfl

theorem margin_blank (steps : Int) : ∀ c ∈ (margin steps).toList, c = ' ' := by
  intro c hc
  rw [margin, toList_ofList] at hc
  exact (List.mem_replicate.mp hc).2

theorem outcome_plainValue_list (hname : isEntryName name = true) (raw : String) {mid : List Char}
    {k₁ k₂ : Cursor} {src : Source} {st : Slots Listener} {d : Desk}
    (hlength : xs.length ≤ (Source.ofChars mid).lines.length)
    (hnext : outcome reader.nextLine ⟨src, ⟨some (lineOf raw [name, "=", "\x7b"]), ["\x7b"]⟩, taped .annot label st, d⟩ = (.ok (), ⟨.ofChars mid, k₁, taped .annot label st, d⟩))
    (hvalues : ∀ n, xs.length < n → outcome (reader.listedValues false n) ⟨.ofChars mid, k₁, taped .annot label st, d⟩ = (.ok xs, ⟨.ofChars rest, k₂, taped .annot label st, d⟩)) :
    outcome (reader.plainValue name) ⟨src, ⟨some (lineOf raw [name, "=", "\x7b"]), ["\x7b"]⟩, taped .annot label st, d⟩
      = (.ok (), ⟨.ofChars rest, k₂, taped .annot label st, d.hear label (.array (.text name) (.texts xs))⟩) := by
  obtain ⟨-, -, hclose⟩ := entryName_cases hname
  have hopen : (" ".intercalate [name, "=", "\x7b"]).toList.contains '\x7b' = true := by
    simp [intercalate_cons_cons]
  have hnot : (" ".intercalate [name, "=", "\x7b"]).toList.contains '\x7d' = false := by
    simp [intercalate_cons_cons, hclose]
  have hmuted : outcome (annotMuted : Read Listener Desk Bool)
      ⟨src, ⟨some (lineOf raw [name, "=", "\x7b"]), ["\x7b"]⟩, taped .annot label st, d⟩
      = (.ok false, _) := rfl
  rw [plainValue, bind_ok _ hmuted, bind_ok _ (outcome_cleaned ..)]
  simp only [hopen, hnot, Bool.false_eq_true, if_false, if_true]
  rw [bind_ok _ (outcome_publishComment ..), bind_ok _ hnext]
  have hbound : outcome (payloadBound : Read Listener Desk Nat) ⟨.ofChars mid, k₁, taped .annot label st, d⟩
      = (.ok ((Source.ofChars mid).lines.length + 1), ⟨.ofChars mid, k₁, taped .annot label st, d⟩) :=
    rfl
  rw [bind_ok _ hbound, bind_ok _ (hvalues _ (by omega))]
  have hears : Shape.annot.hears (Event.array (.text name) (.texts xs)).verb = true := rfl
  exact outcome_tell _ _ st d hears

namespace Told

theorem array (name : { s : String // isEntryName s = true }) (first : Word (isElementWord · = true) fun _ => True)
    (rest : List (Word (isElementWord · = true) fun _ => True)) : Told .annot (Entry.array name first rest).event := by
  obtain ⟨name, hname⟩ := name
  obtain ⟨hbare, -, -⟩ := entryName_cases hname
  have hwords : IsWording [name, "=", "\x7b"] := ⟨hbare, by decide, .inl (by decide)⟩
  have hxs : ∀ x ∈ (first :: rest).map (·.text), IsElement x := 
    List.forall_mem_map.mpr fun w _ => isElement_text w
  refine ⟨rfl, rfl, fun indent => ⟨rfl, ⟨1, name ++ " = \x7b\n" ++ margin (indent + 2)
    ++ (",\n" ++ margin (indent + 2)).intercalate ((first :: rest).map (·.text)) ++ "\n"
    ++ margin (indent + 1) ++ "\x7d", ""⟩, ?_, fun pre hpre label st d cs after k hcs => ?_⟩⟩
  · have hlist := valueList_texts indent name first.text (rest.map (·.text))
    exact congrArg (some <$> ·) hlist
  · have htext := toList_valueList (margin (indent + 2)) (margin (indent + 1)) first.text (rest.map (·.text))
    have hpassage : pre ++ (name ++ " = \x7b\n" ++ margin (indent + 2)
        ++ (",\n" ++ margin (indent + 2)).intercalate ((first :: rest).map (·.text)) ++ "\n"
        ++ margin (indent + 1) ++ "\x7d" ++ "").toList
        = row pre [name, "=", "\x7b"] [] ++ '\n' :: elementRows (margin (indent + 2)).toList
          (margin (indent + 1)).toList ((first :: rest).map (·.text)) := by
      rw [List.map_cons, ← htext]
      simp [row, intercalate_cons_cons]
    rw [hpassage] at hcs
    obtain ⟨mid, hfirst, hmore⟩ := hcs.split
    obtain ⟨raw, hread⟩ := outcome_readLine_row reader hwords hpre (by simp) hfirst k (taped .annot label st) d
    obtain ⟨mid₂, k₁, k₂, hlength, hnext, hvalues⟩ := outcome_listedValues (margin_blank _) (margin_blank _) hxs hmore
      ⟨some (lineOf raw [name, "=", "\x7b"]), ["\x7b"]⟩ (taped .annot label st) d
    have hbrace : ("\x7b" : String).toList.head? = some '\x7b' := rfl
    refine ⟨k₂, .single (hread.trans ?_)⟩
    rw [outcome_statement_value hname hbrace (by decide)]
    exact outcome_plainValue_list hname raw hlength hnext hvalues

theorem entry (x : Entry) : Told .annot x.event := by
  cases x with
  | value name v => exact value name v
  | array name first rest => exact array name first rest

end Told

end Desk

end Dalvik
