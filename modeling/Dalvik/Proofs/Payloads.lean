import Dalvik.Proofs.InnerClasses
import Dalvik.Proofs.Isolation
import Dalvik.Proofs.Bounds

/-!
# Payloads

A payload is a directive with rows of its own behind it: the values of an array, the labels of a packed switch,
the branches of a sparse one. Its rows are read by a loop up to a row that ends the payload (`Reader.rows`); a
blank row is none, and the loop fails there. What a loop makes of rows is said once for any reader
(`Reader.outcome_arrayValues_rows`, `Reader.outcome_sparseBranches_rows`, `Reader.outcome_packedLabels_blank`),
and from it what a reader makes of the line of a payload (`Reader.outcome_readLine_arrayData` and so on).
-/

namespace Dalvik

open Dalvik.Text Source Read List String

theorem Line.ofString_blank {b : List Char} (hb : ∀ c ∈ b, c = ' ') :
    Line.isRemark (ofList (b ++ ['\n'])) = false ∧
      Line.ofString (ofList (b ++ ['\n'])) = .ok ⟨"", "", none, [""]⟩ := by
  have hblank : ∀ c ∈ b ++ ['\n'], isBlank c = true := by
    intro c hc
    rcases mem_append.mp hc with hc | hc
    · obtain rfl := hb c hc
      decide
    · obtain rfl := mem_singleton.mp hc
      decide
  have hstart : dropStart isBlank (b ++ ['\n']) = [] := by
    simpa using @Line.dropStart_append isBlank (b ++ ['\n']) [] hblank (by simp)
  have hend : dropEnd isBlank (b ++ ['\n']) = [] := by
    simpa using @Line.dropEnd_append isBlank [] (b ++ ['\n']) hblank (by simp)
  constructor
  · rw [Line.isRemark, toList_ofList, hstart]
    rfl
  · rw [Line.ofString, toList_ofList, hend]
    rfl

namespace Reader

variable {ν σ : Type} (r : Reader ν σ) {xs : List (List Char × List String)}

/-- Rows of words with their margins, each on a line of its own, in front of a text. -/
def rows : List (List Char × List String) → List Char → List Char
  | [], text => text
  | (m, ws) :: xs, text => row m ws [] ++ '\n' :: rows xs text

/-- Rows that are made of words, with spaces in front of them. -/
def AreRows (xs : List (List Char × List String)) : Prop :=
  ∀ x ∈ xs, (∀ c ∈ x.1, c = ' ') ∧ IsWording x.2

/-- The first word of a row. -/
def firstWord (x : List Char × List String) : String :=
  x.2.headD ""

theorem outcome_nextLine_rows {m : List Char} {ws : List String} (hm : ∀ c ∈ m, c = ' ') (hws : IsWording ws)
    (xs : List (List Char × List String)) (text : List Char) (k : Cursor) (st : Slots ν) (d : σ) :
    ∃ raw, outcome r.nextLine ⟨.ofChars (rows ((m, ws) :: xs) text), k, st, d⟩
      = (.ok (), ⟨.ofChars (rows xs text), ⟨some (lineOf raw ws), ws⟩, st, d⟩) :=
  outcome_nextLine_row r hws hm (by simp) (.inl rfl) k st d

theorem outcome_nextLine_blank {b : List Char} (hb : ∀ c ∈ b, c = ' ') (text : List Char) (k : Cursor)
    (st : Slots ν) (d : σ) :
    outcome r.nextLine ⟨.ofChars (b ++ '\n' :: text), k, st, d⟩
      = (.ok (), ⟨.ofChars text, ⟨some (lineOf "" [""]), [""]⟩, st, d⟩) := by
  have hbreak : '\n' ∉ b := fun hmem => absurd (hb _ hmem) (by decide)
  have hsource : ofChars (b ++ '\n' :: text) = ⟨some (ofList (b ++ ['\n'])) :: (Source.ofChars text).lines⟩ := by
    simp [Source.ofChars, Source.ofString, Source.cutLines_break hbreak]
  obtain ⟨hremark, hline⟩ := Line.ofString_blank hb
  have hne : ofList (b ++ ['\n']) ≠ "" := by
    intro hempty
    have := congrArg toList hempty
    simp at this
  rw [hsource]
  exact r.outcome_nextLine hremark hne hline (ofChars text).lines k st d

theorem outcome_isPayloadEnd {w : String} (hw : w ≠ "") (s : Session ν σ) :
    outcome (isPayloadEnd w) s = (.ok (decide (w = Listing.directive .close)), s) := by
  have hne : w.toList ≠ [] := by simpa using hw
  obtain ⟨c, cs, hcs⟩ := exists_cons_of_ne_nil hne
  have hiff : (c == '.' && cs == Keyword.close.text.toList) = decide (w = Listing.directive .close) := by
    rw [Bool.eq_iff_iff, decide_eq_true_iff, ← toList_inj, hcs, Bool.and_eq_true, beq_iff_eq, beq_iff_eq]
    exact ⟨fun h => by rw [h.1, h.2]; rfl, fun h => cons.inj h⟩
  rw [isPayloadEnd, bind_ok _ (outcome_firstChar (c := c) (by rw [hcs]; rfl) s)]
  simp [hcs, ← hiff]

theorem outcome_payloadLine (src : Source) (raw : String) (ws pending : List String) (st : Slots ν) (d : σ) :
    outcome (r.payloadLine false) ⟨src, ⟨some (lineOf raw ws), pending⟩, st, d⟩
      = (.ok (), ⟨src, ⟨some (lineOf raw ws), pending⟩, st, d⟩) := rfl

/-! ### The values of an array -/

section Values

variable {m : List Char} {w : String} {more : List String} (hm : ∀ c ∈ m, c = ' ') (n : Nat)
  (xs : List (List Char × List String)) (text : List Char) (k : Cursor) (st : Slots ν) (d : σ)

include hm

theorem outcome_arrayValues_succ (hws : IsWording (w :: more)) :
    ∃ k', outcome (r.arrayValues false (n + 1)) ⟨.ofChars (rows ((m, w :: more) :: xs) text), k, st, d⟩
      = outcome (if w = Listing.directive .close then pure [] else do
          let value ← attempt (Literal.parse w)
          pure (.literal value :: (← r.arrayValues false n))) ⟨.ofChars (rows xs text), k', st, d⟩ := by
  have hw : w ≠ "" := by
    obtain ⟨w', more', heq, hw'⟩ := hws.exists_cons
    cases heq
    exact hw'
  obtain ⟨raw, hnext⟩ := outcome_nextLine_rows r hm hws xs text k st d
  refine ⟨⟨some (lineOf raw (w :: more)), w :: more⟩, ?_⟩
  rw [arrayValues, bind_ok _ hnext, bind_ok _ (outcome_peekWord ..),
    bind_ok _ (outcome_payloadLine ..), bind_ok _ (outcome_isPayloadEnd hw _)]
  simp only [decide_eq_true_eq]

theorem outcome_arrayValues_blank : ∃ k', outcome (r.arrayValues false (n + 1)) ⟨.ofChars (m ++ '\n' :: text), k, st, d⟩
      = (.error .noElement, ⟨.ofChars text, k', st, d⟩) := by
  refine ⟨⟨some (lineOf "" [""]), [""]⟩, ?_⟩
  rw [arrayValues, bind_ok _ (outcome_nextLine_blank r hm text k st d)]
  rfl

end Values

/-- Rows with literals: each opens with one, and none ends a payload. -/
def AreLiterals (xs : List (List Char × List String)) (vs : List Literal) : Prop :=
  Forall₂ (fun x v => firstWord x ≠ Listing.directive .close ∧ Literal.parse (firstWord x) = .ok v) xs vs

theorem outcome_arrayValues_rows (hxs : AreRows xs) {vs : List Literal}
    (hvs : AreLiterals xs vs) (n : Nat) (text : List Char) (k : Cursor) (st : Slots ν) (d : σ) :
    ∃ k', outcome (r.arrayValues false (xs.length + n)) ⟨.ofChars (rows xs text), k, st, d⟩
      = outcome ((vs.map Datum.literal ++ ·) <$> r.arrayValues false n) ⟨.ofChars text, k', st, d⟩ := by
  induction hvs generalizing k with
  | nil => exact ⟨k, by simp [rows]⟩
  | @cons x v xs vs hx _ ih =>
    obtain ⟨m, ws⟩ := x
    obtain ⟨hm, hws⟩ := hxs _ mem_cons_self
    obtain ⟨w, more, rfl, -⟩ := hws.exists_cons
    obtain ⟨k₁, hround⟩ := outcome_arrayValues_succ r hm (xs.length + n) xs text k st d hws
    obtain ⟨k₂, hrest⟩ := ih (fun y hy => hxs y (.tail _ hy)) k₁
    obtain ⟨hnot, hparse⟩ : w ≠ Listing.directive .close ∧ Literal.parse w = .ok v := hx
    refine ⟨k₂, ?_⟩
    rw [length_cons, Nat.add_right_comm, hround, if_neg hnot, hparse,
      bind_ok _ (outcome_attempt ..), outcome_bind, hrest, outcome_map, outcome_map]
    cases outcome (r.arrayValues false n) ⟨.ofChars text, k₂, st, d⟩ with
    | mk res t => cases res <;> rfl

/-! ### The branches of a sparse switch -/

/-- The last word of a row. -/
def finalWord (x : List Char × List String) : String :=
  x.2.getLastD ""

/-- The branches that rows add to others: the first word of a row is the key, its last word the label. -/
def branchesOf (xs : List (List Char × List String)) (bs : List (String × String)) : List (String × String) :=
  xs.foldl (fun bs x => setBranch (firstWord x) (labelName (finalWord x)) bs) bs

theorem branchesOf_append (xs ys : List (List Char × List String)) (bs : List (String × String)) :
    branchesOf (xs ++ ys) bs = branchesOf ys (branchesOf xs bs) :=
  foldl_append

section Branches

variable {m : List Char} {ws : List String} (hm : ∀ c ∈ m, c = ' ') (n : Nat) (bs : List (String × String))
  (text : List Char) (k : Cursor) (st : Slots ν) (d : σ)

include hm

theorem outcome_sparseBranches_succ (hws : IsWording ws) {rest : List Char} (hcs : Follows (row m ws []) text rest) :
    ∃ raw, outcome (r.sparseBranches false (n + 1) bs) ⟨.ofChars text, k, st, d⟩
      = outcome (if firstWord (m, ws) = Listing.directive .close then pure bs
          else r.sparseBranches false n (branchesOf [(m, ws)] bs))
        ⟨.ofChars rest, ⟨some (lineOf raw ws), ws⟩, st, d⟩ := by
  obtain ⟨w, more, rfl, hw⟩ := hws.exists_cons
  obtain ⟨raw, hnext⟩ := outcome_nextLine_row r hws hm (by simp) hcs k st d
  refine ⟨raw, ?_⟩
  rw [sparseBranches, bind_ok _ hnext, bind_ok _ (outcome_peekWord ..),
    bind_ok _ (outcome_payloadLine ..), bind_ok _ (outcome_isPayloadEnd hw _)]
  simp only [decide_eq_true_eq]
  have hfirst : firstWord (m, w :: more) = w := rfl
  rw [hfirst]
  split
  · rfl
  · rfl

theorem outcome_sparseBranches_blank :
    ∃ k', outcome (r.sparseBranches false (n + 1) bs) ⟨.ofChars (m ++ '\n' :: text), k, st, d⟩
      = (.error .noElement, ⟨.ofChars text, k', st, d⟩) := by
  refine ⟨⟨some (lineOf "" [""]), [""]⟩, ?_⟩
  rw [sparseBranches, bind_ok _ (outcome_nextLine_blank r hm text k st d)]
  rfl

end Branches

theorem outcome_sparseBranches_rows (hxs : AreRows xs)
    (hend : ∀ x ∈ xs, firstWord x ≠ Listing.directive .close) (n : Nat) (bs : List (String × String))
    (text : List Char) (k : Cursor) (st : Slots ν) (d : σ) :
    ∃ k', outcome (r.sparseBranches false (xs.length + n) bs) ⟨.ofChars (rows xs text), k, st, d⟩
      = outcome (r.sparseBranches false n (branchesOf xs bs)) ⟨.ofChars text, k', st, d⟩ := by
  induction xs generalizing bs k with
  | nil => exact ⟨k, by simp [rows, branchesOf]⟩
  | cons x xs ih =>
    obtain ⟨m, ws⟩ := x
    obtain ⟨hm, hws⟩ := hxs _ mem_cons_self
    obtain ⟨raw, hround⟩ := outcome_sparseBranches_succ r hm (xs.length + n) bs (rows ((m, ws) :: xs) text) k st d hws
      (.inl rfl)
    obtain ⟨k', hrest⟩ := ih (fun y hy => hxs y (.tail _ hy)) (fun y hy => hend y (.tail _ hy))
      (branchesOf [(m, ws)] bs) ⟨some (lineOf raw ws), ws⟩
    refine ⟨k', ?_⟩
    rw [length_cons, Nat.add_right_comm, hround, if_neg (hend _ mem_cons_self), hrest]
    rfl

/-! ### The labels of a packed switch -/

section Labels

variable {m b : List Char} (hm : ∀ c ∈ m, c = ' ') (hb : ∀ c ∈ b, c = ' ') (text : List Char) (st : Slots ν) (d : σ)

include hm hb

theorem outcome_packedLabels_blank {n : Nat} (ls : List Document.Label) (hn : ls.length < n) (k : Cursor) :
    ∃ k', outcome (r.nextLine >>= fun _ => r.packedLabels false n)
        ⟨.ofChars (rows (ls.map fun l => (m, [":" ++ l.1])) (b ++ '\n' :: text)), k, st, d⟩
      = (.error .noElement, ⟨.ofChars text, k', st, d⟩) := by
  induction ls generalizing n k with
  | nil =>
    obtain ⟨n, rfl⟩ := Nat.exists_eq_succ_of_ne_zero (Nat.ne_of_gt hn)
    refine ⟨⟨some (lineOf "" [""]), []⟩, ?_⟩
    rw [map_nil, rows, bind_ok _ (outcome_nextLine_blank r hb text k st d)]
    rfl
  | cons l ls ih =>
    obtain ⟨n, rfl⟩ := Nat.exists_eq_succ_of_ne_zero (Nat.ne_of_gt (Nat.zero_lt_of_lt hn))
    obtain ⟨hbare, hhead, -⟩ := Desk.Told.colon_label l
    have hws : IsWording [":" ++ l.1] := .inl hbare
    obtain ⟨raw, hnext⟩ := outcome_nextLine_rows r hm hws (ls.map fun l => (m, [":" ++ l.1])) (b ++ '\n' :: text) k st d
    obtain ⟨k', hrest⟩ := ih (by simpa using hn) ⟨some (lineOf raw [":" ++ l.1]), []⟩
    refine ⟨k', ?_⟩
    rw [map_cons, bind_ok _ hnext, packedLabels, bind_ok _ (outcome_nextWord ..),
      bind_ok _ (outcome_payloadLine ..), bind_ok _ (outcome_firstChar hhead _),
      if_pos (by decide), ← bind_assoc, outcome_bind, hrest]

end Labels

/-! ### The line of a payload -/

section Line

variable {r} (h : r.host.Private) {n : ν} (hn : r.hasShape (.node n) .field = false) {pre : List Char}
  (hpre : ∀ c ∈ pre, c = ' ') (text : List Char) (k : Cursor) (st : Slots ν) (d : σ)

include hn hpre

theorem outcome_readLine_directive (kw : Keyword) {dir : Directive} (hplain : kw ≠ .implements ∧ kw ≠ .classDef)
    (hdir : Directive.ofName? kw.text = some dir) (hsimple : dir ≠ .value ∧ dir ≠ .directive) (ws : List String)
    (hws : IsWording (Listing.directive kw :: ws)) :
    ∃ raw, outcome r.readLine ⟨.ofChars (row pre (Listing.directive kw :: ws) [] ++ '\n' :: text), k, .node n :: st, d⟩
      = outcome (r.simpleDirective dir) ⟨.ofChars text,
          ⟨some (lineOf raw (Listing.directive kw :: ws)), Listing.directive kw :: ws⟩, .node n :: st, d⟩ := by
  have hfollows : Follows (row pre (Listing.directive kw :: ws) [])
      (row pre (Listing.directive kw :: ws) [] ++ '\n' :: text) text := .inl rfl
  obtain ⟨raw, hread⟩ := outcome_readLine_row r hws hpre (by simp) hfollows k (.node n :: st) d
  exact ⟨raw, hread.trans (outcome_statement_simple _ st d kw hplain hdir hsimple (.inl hn) _ ws)⟩

include h

theorem outcome_readLine_arrayData {width : String} (hwidth : IsBare width) :
    ∃ k', ∀ N, (ofChars text).lines.length < N → outcome r.readLine
        ⟨.ofChars (row pre [Listing.directive .arrayData, width] [] ++ '\n' :: text), k, .node n :: st, d⟩
      = outcome (r.arrayValues false N >>= fun values => do
          unless ← methodMuted do r.tell (.arrayData (.text width) (.list values)))
        ⟨.ofChars text, k', .node n :: st, d⟩ := by
  obtain ⟨raw, hread⟩ := outcome_readLine_directive hn hpre text k st d .arrayData (by decide) rfl (by decide)
    [width] ⟨(isBare_directive _).1, .inl hwidth⟩
  refine ⟨⟨some (lineOf raw [Listing.directive .arrayData, width]), [width]⟩, fun N hN => hread.trans ?_⟩
  exact ((settled_arrayValues h false).bind _) _ _ N (Nat.lt_succ_self _) hN

theorem outcome_readLine_sparseSwitch : ∃ k', ∀ N, (ofChars text).lines.length < N → outcome r.readLine
        ⟨.ofChars (row pre [Listing.directive .sparseSwitch] [] ++ '\n' :: text), k, .node n :: st, d⟩
      = outcome (r.sparseBranches false N [] >>= fun branches => do
          unless ← methodMuted do
            r.tell (.sparseSwitch (.table (branches.map fun (k, v) => (.text k, .text v))))
            r.publishComment) ⟨.ofChars text, k', .node n :: st, d⟩ := by
  obtain ⟨raw, hread⟩ := outcome_readLine_directive hn hpre text k st d .sparseSwitch (by decide) rfl (by decide)
    [] (.inl (isBare_directive _).1)
  refine ⟨⟨some (lineOf raw [Listing.directive .sparseSwitch]), []⟩, fun N hN => hread.trans ?_⟩
  exact ((settled_sparseBranches h false []).bind _) _ _ N (Nat.lt_succ_self _) hN

theorem outcome_readLine_packedSwitch {first : String} (hfirst : IsBare first) :
    ∃ k', ∀ N, (ofChars text).lines.length < N → outcome r.readLine
        ⟨.ofChars (row pre [Listing.directive .packedSwitch, first] [] ++ '\n' :: text), k, .node n :: st, d⟩
      = outcome ((r.nextLine >>= fun _ => r.packedLabels false (N + 1)) >>= fun labels => do
          unless ← methodMuted do r.tell (.packedSwitch (.text first) (.texts labels)))
        ⟨.ofChars text, k', .node n :: st, d⟩ := by
  obtain ⟨raw, hread⟩ := outcome_readLine_directive hn hpre text k st d .packedSwitch (by decide) rfl (by decide)
    [first] ⟨(isBare_directive _).1, .inl hfirst⟩
  refine ⟨⟨some (lineOf raw [Listing.directive .packedSwitch, first]), [first]⟩, fun N hN => hread.trans ?_⟩
  have hbound : ∀ (tail : List String → Read ν σ Unit) (s : Session ν σ), s.source.lines.length < N →
      outcome (r.nextLine >>= fun _ => payloadBound >>= fun b => r.packedLabels false (b + 1) >>= tail) s
        = outcome (r.nextLine >>= fun _ => r.packedLabels false (N + 1) >>= tail) s := by
    intro tail s hs
    refine outcome_bind_congr fun _ t ht => ?_
    have hshort := (governs_taking h).nextLine_shorter trivial ht
    have hlines : outcome (payloadBound : Read ν σ Nat) t = (.ok (t.source.lines.length + 1), t) := rfl
    rw [bind_ok _ hlines]
    exact ((settled_packedLabels h false).succ.bind tail) t (t.source.lines.length + 1) N (by omega) (by omega)
  have hmuted : outcome (methodMuted : Read ν σ Bool)
      ⟨.ofChars text, ⟨some (lineOf raw [Listing.directive .packedSwitch, first]),
        [Listing.directive .packedSwitch, first]⟩, .node n :: st, d⟩ = (.ok false, _) := rfl
  have hhead : outcome (r.payloadHead false)
      ⟨.ofChars text, ⟨some (lineOf raw [Listing.directive .packedSwitch, first]), [first]⟩, .node n :: st, d⟩
      = (.ok (), _) := rfl
  rw [bind_assoc, ← hbound _ _ hN]
  change outcome r.packedSwitch _ = _
  rw [packedSwitch, bind_ok _ hmuted, bind_ok _ (outcome_nextWord ..), bind_ok _ (outcome_peekWord ..), bind_ok _ hhead]

end Line

end Reader

end Dalvik
