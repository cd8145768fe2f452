import Dalvik.Proofs.Payloads

/-!
# Payloads without an end

A writer puts no end behind the rows of a payload: a blank line follows the values of an array and the labels of
a packed switch, and nothing at all the branches of a sparse switch. Reading therefore stops in an array
(`Desk.Stuck.arrayData`), and in a packed switch unless its first label looks like an end
(`Desk.Stuck.packedSwitch`, `Desk.conveys_packedSwitch_end`). A sparse switch takes in what is written behind it,
up to the end of some construct, which then stays open (`Desk.conveys_sparseSwitch`), or up to a blank line, where
reading stops (`Desk.stalls_sparseSwitch`).
-/

namespace Dalvik

open Dalvik.Text Reader Desk Listing List Sheet Source

variable {passage b : List Char} {wss : List (List String)}

/-! ### Reading that stops -/

namespace Reader

variable {ν σ : Type} {r : Reader ν σ} {st st₁ st' : Slots ν} {d d₁ d' : σ} {f : Fault}

/-- Reading stops in a passage, whatever lines follow it. -/
def Stalls (r : Reader ν σ) (passage : List Char) (st : List (Slot ν)) (d : σ) (f : Fault) (st' : List (Slot ν))
    (d' : σ) : Prop :=
  ∀ rest k, ∃ src' k', r.Stops ⟨.ofChars (passage ++ '\n' :: rest), k, st, d⟩ f ⟨src', k', st', d'⟩

theorem Conveys.stalls {passage' : List Char} (h : r.Conveys passage st d st₁ d₁)
    (h' : r.Stalls passage' st₁ d₁ f st' d') : r.Stalls (passage ++ '\n' :: passage') st d f st' d' := by
  intro rest k
  obtain ⟨k₁, hreads⟩ := h _ (passage' ++ '\n' :: rest) k (.inl rfl)
  obtain ⟨src', k', hstops⟩ := h' rest k₁
  refine ⟨src', k', ?_⟩
  simpa using hreads.stops hstops

theorem ConveysAll.stalls {bs : List String} {b : String} (h : r.ConveysAll bs st d st₁ d₁)
    (h' : r.Stalls b.toList st₁ d₁ f st' d') : r.Stalls ("\n".intercalate (bs ++ [b])).toList st d f st' d' := by
  induction h with
  | nil st d => simpa using h'
  | @cons b' bs st st₂ st₃ d d₂ d₃ hb hbs ih =>
    have hne : bs ++ [b] ≠ [] := by simp
    have htext : "\n".intercalate (b' :: bs ++ [b]) = b' ++ "\n" ++ "\n".intercalate (bs ++ [b]) :=
      String.intercalate_cons_of_ne_nil hne
    rw [htext, String.toList_append, String.toList_append, append_assoc]
    exact hb.stalls (ih h')

/-! ### The rows of a payload as they are written -/

theorem rows_append (xs ys : List (List Char × List String)) (text : List Char) :
    rows (xs ++ ys) text = rows xs (rows ys text) := by
  induction xs with
  | nil => rfl
  | cons x xs ih => simp [rows, ih]

theorem rows_text (xs : List (List Char × List String)) (text more : List Char) :
    rows xs (text ++ more) = rows xs text ++ more := by
  induction xs with
  | nil => rfl
  | cons x xs ih => simp [rows, ih]

/-- Rows that all have the same margin. -/
def rowsAt (m : String) (wss : List (List String)) : List (List Char × List String) :=
  wss.map fun ws => (m.toList, ws)

theorem rowsAt_cons (m : String) (ws : List String) (wss : List (List String)) :
    rowsAt m (ws :: wss) = (m.toList, ws) :: rowsAt m wss := rfl

theorem toList_rowsAt (m : String) (hne : wss ≠ []) (text : List Char) :
    (m ++ ("\n" ++ m).intercalate (wss.map (" ".intercalate ·))).toList ++ '\n' :: text = rows (rowsAt m wss) text := by
  induction wss with
  | nil => exact absurd rfl hne
  | cons ws wss ih =>
    cases wss with
    | nil => simp [rowsAt, rows, row]
    | cons ws' wss =>
      have hrest := ih (by simp)
      simp only [rowsAt, map_cons, rows] at hrest ⊢
      rw [← hrest]
      simp [row]

/-- The text of a payload: a line of words, and rows behind it. -/
def payloadText (ws : List String) (m : String) (wss : List (List String)) : String :=
  " ".intercalate ws ++ "\n" ++ m ++ ("\n" ++ m).intercalate (wss.map (" ".intercalate ·))

theorem toList_payloadText (pre : List Char) (ws : List String) (m : String) (hne : wss ≠ []) (text : List Char) :
    pre ++ (payloadText ws m wss).toList ++ '\n' :: text = row pre ws [] ++ '\n' :: rows (rowsAt m wss) text := by
  rw [← toList_rowsAt m hne]
  simp [payloadText, row]

theorem exists_blank_payloadText (pre : List Char) (ws : List String) {m : String} (hm : ∀ c ∈ m.toList, c = ' ')
    (wss : List (List String)) (rest : List Char) :
    ∃ b text, (∀ c ∈ b, c = ' ') ∧ pre ++ (payloadText ws m wss ++ "\n").toList ++ '\n' :: rest
      = row pre ws [] ++ '\n' :: rows (rowsAt m wss) (b ++ '\n' :: text) := by
  by_cases hne : wss = []
  · subst hne
    exact ⟨m.toList, '\n' :: rest, hm, by simp [rowsAt, rows, row, payloadText]⟩
  · refine ⟨[], rest, by simp, ?_⟩
    rw [← toList_payloadText pre ws m hne]
    simp

theorem areRows_rowsAt {m : String} (hm : ∀ c ∈ m.toList, c = ' ') (hwss : ∀ ws ∈ wss, IsWording ws) :
    AreRows (rowsAt m wss) := 
  forall_mem_map.mpr fun ws hws => ⟨hm, hwss ws hws⟩

end Reader

namespace Document

/-- A text on the row of an array: a word or a text in quotes, but not the word that ends a payload. -/
abbrev ArrayText : Type := { s : String // IsLast s ∧ s ≠ directive .close }

/-- A label of a switch, which is a word also without its colon. -/
abbrev Target : Type := { s : String // isLabel s = true ∧ IsBare s }

/-- A label of a switch as a label. -/
def Target.label (l : Target) : Label :=
  ⟨l.1, l.2.1⟩

/-- A key of a switch: a word, but not the one that ends a payload. -/
abbrev Key : Type := { s : String // IsBare s ∧ s ≠ directive .close }

/-- The call of an array. -/
def arrayEvent (width : Bare) (values : List ArrayText) : Event :=
  .arrayData (.text width) (.texts (values.map (·.1)))

/-- The call of a packed switch. -/
def packedEvent (first : Bare) (labels : List Target) : Event :=
  .packedSwitch (.text first) (.texts (labels.map (·.1)))

/-- The call of a sparse switch with branches. -/
def sparseEvent (branches : List (String × String)) : Event :=
  .sparseSwitch (.table (branches.map fun (k, v) => (.text k, .text v)))

/-- The branches of keys and labels. -/
def branchTexts (branches : List (Key × Label)) : List (String × String) :=
  branches.map fun b => (b.1.1, b.2.1)

/-- What the values of an array that is not ended are read as: the first text that is no literal is a fault, and
so is the line behind the last literal. -/
def arrayFault : List ArrayText → Fault
  | [] => .noElement
  | v :: vs =>
    match Literal.parse v with
    | .ok _ => arrayFault vs
    | .error f => f

end Document

namespace Desk

open Document

/-- A call to a method that is written as a statement in which reading stops. -/
structure Stuck (e : Event) (f : Fault) : Prop where
  hears : Shape.method.hears e.verb = true
  settles : settles .method e.verb = true
  written : ∀ indent, heading .method indent e = .ok none ∧ ∃ s, statement .method indent e = .ok (some s) ∧
      ∀ pre : List Char, (∀ c ∈ pre, c = ' ') → ∀ label st d,
        reader.Stalls (pre ++ (s.text ++ s.stop).toList) (.node (.recorder .method label) :: st) d f
          (.node (.recorder .method label) :: st) d

theorem stalls_of_readLine {st : Slots Listener} {d : Desk} {f : Fault}
    (h : ∀ rest k, ∃ src' k', outcome reader.readLine ⟨.ofChars (passage ++ '\n' :: rest), k, st, d⟩ = (.error f, ⟨src', k', st, d⟩)) :
    reader.Stalls passage st d f st d := by
  intro rest k
  obtain ⟨src', k', hfail⟩ := h rest k
  exact ⟨src', k', _, .refl _, hfail⟩

variable {m : String}

theorem outcome_arrayValues_fault (hm : ∀ c ∈ m.toList, c = ' ') (hb : ∀ c ∈ b, c = ' ')
    (values : List ArrayText) (text : List Char) (n : Nat) (k : Cursor) (st : Slots Listener) (d : Desk) :
    ∃ src' k', outcome (reader.arrayValues false (values.length + (n + 1)))
        ⟨.ofChars (rows (rowsAt m (values.map fun v => [v.1])) (b ++ '\n' :: text)), k, st, d⟩
      = (.error (arrayFault values), ⟨src', k', st, d⟩) := by
  induction values generalizing k with
  | nil =>
    obtain ⟨k', hblank⟩ := outcome_arrayValues_blank reader hb n text k st d
    exact ⟨_, k', by simpa [rowsAt, rows, arrayFault] using hblank⟩
  | cons v values ih =>
    have hws : IsWording [v.1] := v.2.1
    obtain ⟨k₁, hround⟩ := outcome_arrayValues_succ reader hm (values.length + (n + 1))
      (rowsAt m (values.map fun v => [v.1])) (b ++ '\n' :: text) k st d hws
    rw [length_cons, Nat.add_right_comm, map_cons, rowsAt_cons, hround, if_neg v.2.2]
    unfold arrayFault
    cases hparse : Literal.parse v.1 with
    | error f => exact ⟨_, k₁, rfl⟩
    | ok x =>
      obtain ⟨src', k', hrest⟩ := ih k₁
      refine ⟨src', k', ?_⟩
      rw [bind_ok _ (Read.outcome_attempt ..), outcome_bind, hrest]

theorem map_intercalate_singleton {α : Type} (f : α → String) (xs : List α) :
    (xs.map fun x => [f x]).map (" ".intercalate ·) = xs.map f := by
  rw [map_map]
  exact map_congr_left fun x _ => @String.intercalate_singleton " " (f x)

theorem Stuck.arrayData (width : Bare) (values : List ArrayText) :
    Stuck (arrayEvent width values) (arrayFault values) := by
  refine ⟨rfl, rfl, fun indent => ⟨rfl, ⟨0, payloadText [directive .arrayData, width.1]
    (margin (indent + 2)) (values.map fun v => [v.1]), "\n"⟩, ?_,
    fun pre hpre label st d => stalls_of_readLine fun rest k => ?_⟩⟩
  · rw [arrayEvent, Listing.statement, Listing.ofMethod, Listing.joined_texts, payloadText,
      map_intercalate_singleton, String.intercalate_cons_cons]
    rfl
  · obtain ⟨b, text, hb, htext⟩ := exists_blank_payloadText pre [directive .arrayData, width.1]
      (margin_blank (indent + 2)) (values.map fun v => [v.1]) rest
    generalize hbody : rows (rowsAt (margin (indent + 2)) (values.map fun v => [v.1]))
      (b ++ '\n' :: text) = body at htext
    have hmethod : reader.hasShape (.node (.recorder .method label)) .field = false := rfl
    obtain ⟨k₁, hread⟩ := outcome_readLine_arrayData (host_private none) hmethod hpre body k st d width.2
    obtain ⟨src', k', hvalues⟩ := outcome_arrayValues_fault (margin_blank (indent + 2)) hb values text
      (ofChars body).lines.length k₁ (taped .method label st) d
    rw [hbody] at hvalues
    refine ⟨src', k', ?_⟩
    rw [htext, hread _ (Nat.lt_of_lt_of_le (Nat.lt_succ_self _) (Nat.le_add_left _ values.length)), outcome_bind,
      hvalues]

/-! ### Packed switches -/

/-- The rows of the labels of a packed switch: the first one has no colon. -/
def labelRows : List Target → List (List String)
  | [] => []
  | l :: ls => [l.1] :: ls.map fun l => [":" ++ l.1]

theorem intercalate_colon (sep : String) (ls : List Target) :
    (sep ++ ":").intercalate (ls.map (·.1)) = sep.intercalate ((labelRows ls).map (" ".intercalate ·)) := by
  cases ls with
  | nil => rfl
  | cons l ls =>
    rw [labelRows, map_cons, map_cons, map_intercalate_singleton]
    induction ls generalizing l with
    | nil => simp
    | cons l' ls ih =>
      rw [map_cons, map_cons, String.intercalate_cons_cons, ih]
      cases ls with
      | nil => simp [String.append_assoc]
      | cons l'' ls => simp [String.intercalate_cons_cons, String.append_assoc]

theorem statement_packedEvent (indent : Int) (first : Bare) (labels : List Target) :
    statement .method indent (packedEvent first labels)
      = .ok (some ⟨0, payloadText [directive .packedSwitch, first.1] (margin (indent + 2))
          (labelRows labels), "\n"⟩) := by
  rw [packedEvent, Listing.statement, Listing.ofMethod, Listing.joined_texts, payloadText, intercalate_colon,
    String.intercalate_cons_cons]
  rfl

theorem outcome_packedLabels_first (l : Target) (n : Nat) (src : Source) (raw : String) (st : Slots Listener)
    (d : Desk) :
    outcome (reader.packedLabels false (n + 1)) ⟨src, ⟨some (lineOf raw [l.1]), [l.1]⟩, st, d⟩
      = outcome (if occurs Keyword.close.text.toList l.1.toList then pure []
          else reader.nextLine >>= fun _ => reader.packedLabels false n)
        ⟨src, ⟨some (lineOf raw [l.1]), []⟩, st, d⟩ := by
  obtain ⟨l, hlabel, hbare⟩ := l
  have hhead := List.head?_eq_some_head hbare.toList_ne_nil
  have hcolon : l.toList.head hbare.toList_ne_nil ≠ ':' := by
    have := (Bool.and_eq_true _ _ ▸ hlabel : _ ∧ _).2
    rw [hhead] at this
    simpa using this
  rw [packedLabels, bind_ok _ (Read.outcome_nextWord ..), bind_ok _ (outcome_payloadLine ..),
    bind_ok _ (Read.outcome_firstChar hhead _), if_neg (by simpa using hcolon)]

theorem outcome_packedLabels_fault (hm : ∀ c ∈ m.toList, c = ' ') (hb : ∀ c ∈ b, c = ' ')
    (labels : List Target) (hfirst : ∀ l ∈ labels.head?, occurs Keyword.close.text.toList l.1.toList = false)
    (text : List Char) {n : Nat} (hn : labels.length ≤ n) (k : Cursor) (st : Slots Listener) (d : Desk) :
    ∃ k', outcome (reader.nextLine >>= fun _ => reader.packedLabels false (n + 1))
        ⟨.ofChars (rows (rowsAt m (labelRows labels)) (b ++ '\n' :: text)), k, st, d⟩
      = (.error .noElement, ⟨.ofChars text, k', st, d⟩) := by
  cases labels with
  | nil => exact outcome_packedLabels_blank reader hm hb text st d [] (Nat.succ_pos n) k
  | cons l ls =>
    have hws : IsWording [l.1] := .inl l.2.2
    obtain ⟨raw, hnext⟩ := outcome_nextLine_rows reader hm hws (rowsAt m (ls.map fun l => [":" ++ l.1]))
      (b ++ '\n' :: text) k st d
    have hrows : rowsAt m (ls.map fun l => [":" ++ l.1])
        = (ls.map Target.label).map fun l => (m.toList, [":" ++ l.1]) := by
      rw [rowsAt, map_map, map_map]
      rfl
    have hlength : (ls.map Target.label).length < n := by
      rw [length_map]
      exact hn
    obtain ⟨k', hrest⟩ := outcome_packedLabels_blank reader hm hb text st d (ls.map Target.label) hlength
      ⟨some (lineOf raw [l.1]), []⟩
    rw [← hrows] at hrest
    refine ⟨k', ?_⟩
    rw [labelRows, rowsAt_cons, bind_ok _ hnext, outcome_packedLabels_first, hfirst l rfl]
    exact hrest

theorem Stuck.packedSwitch (first : Bare) (labels : List Target)
    (hfirst : ∀ l ∈ labels.head?, occurs Keyword.close.text.toList l.1.toList = false) :
    Stuck (packedEvent first labels) .noElement := by
  refine ⟨rfl, rfl, fun indent => ⟨rfl, _, statement_packedEvent indent first labels,
    fun pre hpre label st d => stalls_of_readLine fun rest k => ?_⟩⟩
  obtain ⟨b, text, hb, htext⟩ := exists_blank_payloadText pre [directive .packedSwitch, first.1]
    (margin_blank (indent + 2)) (labelRows labels) rest
  generalize hbody : rows (rowsAt (margin (indent + 2)) (labelRows labels)) (b ++ '\n' :: text) = body at htext
  have hmethod : reader.hasShape (.node (.recorder .method label)) .field = false := rfl
  obtain ⟨k₁, hread⟩ := outcome_readLine_packedSwitch (host_private none) hmethod hpre body k st d first.2
  obtain ⟨k', hlabels⟩ := outcome_packedLabels_fault (margin_blank (indent + 2)) hb labels hfirst text
    (n := (ofChars body).lines.length + 1 + labels.length) (by omega) k₁
    (taped .method label st) d
  rw [hbody] at hlabels
  refine ⟨.ofChars text, k', ?_⟩
  rw [htext, hread ((ofChars body).lines.length + 1 + labels.length) (by omega), outcome_bind, hlabels]

theorem conveys_label (l : Label) {pre : List Char} (hpre : ∀ c ∈ pre, c = ' ') (label : String)
    (st : Slots Listener) (d : Desk) :
    reader.Conveys (row pre [":" ++ l.1] []) (taped .method label st) d
      (taped .method label st) (d.hear label (.label (.text l))) := by
  obtain ⟨-, s, hs, hconveys⟩ := (Told.label l).written 0
  obtain rfl : s = ⟨1, ":" ++ l.1, ""⟩ := (Option.some.inj (Except.ok.inj hs)).symm
  simpa [row, Step.event] using hconveys pre hpre label st d

/-- The desk after labels were heard. -/
def hearLabels (d : Desk) (label : String) (ls : List Target) : Desk :=
  ls.foldl (fun d l => d.hear label (.label (.text l.1))) d

theorem conveys_labels (hm : ∀ c ∈ m.toList, c = ' ') (ls : List Target) (label : String)
    (st : Slots Listener) (d : Desk) :
    reader.Conveys (rows (rowsAt m (ls.map fun l => [":" ++ l.1])) []) (taped .method label st) d
      (taped .method label st) (d.hearLabels label ls) := by
  induction ls generalizing d with
  | nil => exact conveys_nil reader_copy? _ d
  | cons l ls ih => exact (conveys_label (Target.label l) hm label st d).append (ih _)

/-- If the word of an end is part of its first label, a packed switch is read as one without labels, and its other
labels as labels of the method. -/
theorem conveys_packedSwitch_end (first : Bare) (l : Target) (ls : List Target)
    (hend : occurs Keyword.close.text.toList l.1.toList = true) (hm : ∀ c ∈ m.toList, c = ' ')
    {pre : List Char} (hpre : ∀ c ∈ pre, c = ' ') (label : String) (st : Slots Listener) (d : Desk) :
    reader.Conveys (pre ++ (payloadText [directive .packedSwitch, first.1] m (labelRows (l :: ls)) ++ "\n").toList)
      (taped .method label st) d (taped .method label st)
      ((d.hear label (packedEvent first [])).hearLabels label ls) := by
  have htext := toList_payloadText pre [directive .packedSwitch, first.1] m
    (show labelRows (l :: ls) ≠ [] from cons_ne_nil _ _) []
  have hpassage : pre ++ (payloadText [directive .packedSwitch, first.1] m (labelRows (l :: ls)) ++ "\n").toList
      = (row pre [directive .packedSwitch, first.1] [] ++ '\n' :: row m.toList [l.1] [])
        ++ '\n' :: rows (rowsAt m (ls.map fun l => [":" ++ l.1])) [] := by
    rw [labelRows, rowsAt_cons, rows] at htext
    rw [labelRows, String.toList_append]
    simpa using htext
  rw [hpassage]
  refine Conveys.append (fun cs rest k hcs => ?_) (conveys_labels hm ls label st _)
  -- the row of the first label ends the switch, with or without a line break behind it
  obtain ⟨mid, rfl, hmid⟩ : ∃ mid, cs = row pre [directive .packedSwitch, first.1] [] ++ '\n' :: mid ∧
      Follows (row m.toList [l.1] []) mid rest := by
    rcases hcs with rfl | ⟨rfl, rfl⟩
    · exact ⟨_, by rw [append_assoc]; rfl, .inl rfl⟩
    · exact ⟨_, rfl, .inr ⟨rfl, rfl⟩⟩
  have hws : IsWording [l.1] := .inl l.2.2
  have hmethod : reader.hasShape (.node (.recorder .method label)) .field = false := rfl
  obtain ⟨k₁, hread⟩ := outcome_readLine_packedSwitch (host_private none) hmethod hpre mid k st d first.2
  obtain ⟨raw, hnext⟩ := outcome_nextLine_row reader hws hm (by simp) hmid k₁ (taped .method label st) d
  refine ⟨⟨some (lineOf raw [l.1]), []⟩, .single ?_⟩
  rw [hread _ (Nat.lt_succ_self _), bind_assoc, bind_ok _ hnext, outcome_bind, outcome_packedLabels_first, if_pos hend]
  have hears : Shape.method.hears (packedEvent first []).verb = true := rfl
  exact outcome_tell (.ofChars rest) _ st d hears

/-! ### Sparse switches -/

/-- The rows of the branches of a sparse switch. -/
def branchRows (branches : List (Key × Label)) : List (List String) :=
  branches.map fun b => [b.1.1, "->", ":" ++ b.2.1]

theorem isWording_branchRows (branches : List (Key × Label)) : ∀ ws ∈ branchRows branches, IsWording ws := 
  forall_mem_map.mpr fun b _ => ⟨b.1.2.1, by decide, .inl (Told.colon_label b.2).1⟩

theorem statement_sparseEvent (indent : Int) (branches : List (Key × Label)) :
    statement .method indent (sparseEvent (branchTexts branches))
      = .ok (some ⟨0, payloadText [directive .sparseSwitch] (margin (indent + 2)) (branchRows branches), ""⟩) := by
  have hlines : ((branchTexts branches).map fun b => ((.text b.1, .text b.2) : Datum × Datum)).map
      (fun b => b.1.plain ++ " -> :" ++ b.2.plain) = (branchRows branches).map (" ".intercalate ·) := by
    rw [branchTexts, branchRows, map_map, map_map, map_map]
    refine map_congr_left fun b _ => ?_
    rw [← String.toList_inj]
    simp [Datum.plain, String.intercalate_cons_cons]
  rw [sparseEvent, Listing.statement, payloadText, ← hlines]
  rfl

theorem setBranch_of_notMem {k : String} (v : String) {bs : List (String × String)} (h : k ∉ bs.map Prod.fst) :
    setBranch k v bs = bs ++ [(k, v)] := by
  induction bs with
  | nil => rfl
  | cons b bs ih =>
    simp only [map_cons, mem_cons, not_or] at h
    have hne : (b.1 == k) = false := by simpa using fun heq => h.1 heq.symm
    simp [setBranch, hne, ih h.2]

theorem branchesOf_branchRows (m : String) (branches : List (Key × Label)) (bs : List (String × String))
    (h : (bs.map Prod.fst ++ branches.map (·.1.1)).Nodup) :
    branchesOf (rowsAt m (branchRows branches)) bs = bs ++ branchTexts branches := by
  induction branches generalizing bs with
  | nil => simp [branchesOf, rowsAt, branchRows, branchTexts]
  | cons b branches ih =>
    have hnew : b.1.1 ∉ bs.map Prod.fst := by
      intro hmem
      exact (nodup_append.mp h).2.2 _ hmem _ mem_cons_self rfl
    have hset : branchesOf (rowsAt m (branchRows (b :: branches))) bs
        = branchesOf (rowsAt m (branchRows branches)) (setBranch b.1.1 (labelName (":" ++ b.2.1)) bs) := rfl
    rw [hset, (Told.colon_label b.2).2.2, setBranch_of_notMem _ hnew, ih]
    · simp [branchTexts]
    · simpa using h

theorem Stuck.sparseSwitch : Stuck (sparseEvent []) .noElement := by
  refine ⟨rfl, rfl, fun indent => ⟨rfl, _, statement_sparseEvent indent [],
    fun pre hpre label st d => stalls_of_readLine fun rest k => ?_⟩⟩
  have hmethod : reader.hasShape (.node (.recorder .method label)) .field = false := rfl
  obtain ⟨k₁, hread⟩ := outcome_readLine_sparseSwitch (host_private none) hmethod hpre
    ((margin (indent + 2)).toList ++ '\n' :: rest) k st d
  obtain ⟨k', hblank⟩ := outcome_sparseBranches_blank reader (margin_blank (indent + 2))
    (ofChars ((margin (indent + 2)).toList ++ '\n' :: rest)).lines.length [] rest k₁
    (taped .method label st) d
  refine ⟨.ofChars rest, k', ?_⟩
  have htext : pre ++ (payloadText [directive .sparseSwitch] (margin (indent + 2)) (branchRows [])
      ++ "").toList ++ '\n' :: rest
      = row pre [directive .sparseSwitch] [] ++ '\n' :: ((margin (indent + 2)).toList ++ '\n' :: rest) := by
    simp [payloadText, branchRows, row]
  rw [htext, hread _ (Nat.lt_succ_self _), outcome_bind, hblank]

section Following

variable {branches : List (Key × Label)} (hne : branches ≠ []) (hkeys : (branches.map (·.1.1)).Nodup) {m : String}
  (hm : ∀ c ∈ m.toList, c = ' ') {ys : List (List Char × List String)} (hys : AreRows ys)
  (hend : ∀ y ∈ ys, firstWord y ≠ directive .close) {pre : List Char} (hpre : ∀ c ∈ pre, c = ' ')
  (label : String) (st : Slots Listener) (d : Desk)

include hne hkeys hm hys hend hpre

theorem outcome_readLine_following (text : List Char) (k : Cursor) :
    ∃ k' n, outcome reader.readLine ⟨.ofChars (pre ++ (payloadText [directive .sparseSwitch] m
        (branchRows branches)).toList ++ '\n' :: rows ys text), k, taped .method label st, d⟩
      = outcome (reader.sparseBranches false (n + 1) (branchesOf ys (branchTexts branches)) >>= fun branches => do
          unless ← methodMuted do
            reader.tell (sparseEvent branches)
            reader.publishComment) ⟨.ofChars text, k', taped .method label st, d⟩ := by
  have hmethod : reader.hasShape (.node (.recorder .method label)) .field = false := rfl
  have hrows : branchRows branches ≠ [] := by simpa [branchRows] using hne
  have hxs := areRows_rowsAt hm (isWording_branchRows branches)
  have hxend : ∀ x ∈ rowsAt m (branchRows branches), firstWord x ≠ directive .close := by
    intro x hx
    obtain ⟨ws, hws, rfl⟩ := mem_map.mp hx
    obtain ⟨b, -, rfl⟩ := mem_map.mp hws
    exact b.1.2.2
  have hall : AreRows (rowsAt m (branchRows branches) ++ ys) :=
    fun x hx => (mem_append.mp hx).elim (hxs x) (hys x)
  have hallEnd : ∀ x ∈ rowsAt m (branchRows branches) ++ ys, firstWord x ≠ directive .close :=
    fun x hx => (mem_append.mp hx).elim (hxend x) (hend x)
  have hbranches : branchesOf (rowsAt m (branchRows branches) ++ ys) [] = branchesOf ys (branchTexts branches) := by
    have hown := branchesOf_branchRows m branches [] (by simpa using hkeys)
    rw [nil_append] at hown
    rw [branchesOf_append, hown]
  rw [toList_payloadText pre _ m hrows, ← rows_append]
  obtain ⟨k₁, hread⟩ := outcome_readLine_sparseSwitch (host_private none) hmethod hpre
    (rows (rowsAt m (branchRows branches) ++ ys) text) k st d
  obtain ⟨k', hloop⟩ := outcome_sparseBranches_rows reader hall hallEnd
    ((ofChars (rows (rowsAt m (branchRows branches) ++ ys) text)).lines.length + 1) [] text k₁
    (taped .method label st) d
  refine ⟨k', (ofChars (rows (rowsAt m (branchRows branches) ++ ys) text)).lines.length, ?_⟩
  rw [hread _ (Nat.lt_of_lt_of_le (Nat.lt_succ_self _) (Nat.le_add_left _ _)), outcome_bind, hloop, hbranches,
    ← outcome_bind]
  rfl

/-- A sparse switch takes in the rows behind it, up to one that ends something: all are told as one switch, and
what that row ends stays open. -/
theorem conveys_sparseSwitch {z : List Char × List String} (hz : (∀ c ∈ z.1, c = ' ') ∧ IsWording z.2)
    (hclose : firstWord z = directive .close) :
    reader.Conveys (pre ++ (payloadText [directive .sparseSwitch] m (branchRows branches)).toList
        ++ '\n' :: rows ys (row z.1 z.2 [])) (taped .method label st) d
      (taped .method label st)
      (d.hear label (sparseEvent (branchesOf ys (branchTexts branches)))) := by
  intro cs rest k hcs
  obtain ⟨tail, rfl, htail⟩ : ∃ tail, cs = pre ++ (payloadText [directive .sparseSwitch] m
      (branchRows branches)).toList ++ '\n' :: rows ys tail ∧ Follows (row z.1 z.2 []) tail rest := by
    rcases hcs with rfl | ⟨rfl, rfl⟩
    · refine ⟨row z.1 z.2 [] ++ '\n' :: rest, ?_, .inl rfl⟩
      rw [rows_text]
      simp
    · exact ⟨_, rfl, .inr ⟨rfl, rfl⟩⟩
  obtain ⟨k₁, n, hread⟩ := outcome_readLine_following hne hkeys hm hys hend hpre label st d tail k
  obtain ⟨raw, hlast⟩ := outcome_sparseBranches_succ reader hz.1 n (branchesOf ys (branchTexts branches)) tail k₁
    (taped .method label st) d hz.2 htail
  rw [if_pos hclose] at hlast
  have hmuted : outcome (methodMuted : Read Listener Desk Bool)
      ⟨.ofChars rest, ⟨some (lineOf raw z.2), z.2⟩, taped .method label st, d⟩ = (.ok false, _) := rfl
  refine ⟨⟨some (lineOf raw z.2), z.2⟩, .single ?_⟩
  rw [hread, bind_ok _ hlast, bind_ok _ hmuted, if_neg (by decide)]
  rfl

theorem stalls_sparseSwitch (hb : ∀ c ∈ b, c = ' ') :
    reader.Stalls (pre ++ (payloadText [directive .sparseSwitch] m (branchRows branches)).toList
        ++ '\n' :: rows ys b) (taped .method label st) d .noElement
      (taped .method label st) d := by
  refine stalls_of_readLine fun rest k => ?_
  obtain ⟨k₁, n, hread⟩ := outcome_readLine_following hne hkeys hm hys hend hpre label st d (b ++ '\n' :: rest) k
  obtain ⟨k', hblank⟩ := outcome_sparseBranches_blank reader hb n (branchesOf ys (branchTexts branches)) rest k₁
    (taped .method label st) d
  refine ⟨.ofChars rest, k', ?_⟩
  rw [append_assoc _ _ ('\n' :: rest), cons_append, ← rows_text, hread, outcome_bind, hblank]

end Following

end Desk

end Dalvik
