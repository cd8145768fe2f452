import Dalvik.Proofs.Workrooms
import Mathlib.Data.List.TakeWhile
import Mathlib.Logic.Function.Basic

/-!
# Ledgers

A ledger is a workroom with a log of the calls that were made: who was called, the lines that the call was written
as, and the writer that was handed out (`Ledger.call?`). A log is orderly when no writer is called any more once a
writer above it has been called again (`Orderly`).

Every call of an orderly run without comments behind lines is found in the code once. The sheets that still wait
below the class hold the entries of the log (`Filed`): settling a sheet moves the entries of the sheets below it to
the end of its own, and a call adds one entry. What is called in an orderly run lies on the right edge of the forest
(`Standing`), so nothing is added to a sheet that is no longer part of the class.
-/

namespace Dalvik

open List Forest Option Nat Function

/-! ### Bare lines -/

namespace Text

/-- The lines of a text that are not blank, without the white space in front. -/
def bareLines (s : String) : List String :=
  ((splitParts "\n" s).map (trimStart isBlank)).filter (· ≠ "")

theorem exists_cutAt_eq (c : Char) (s : List Char) :
    ∃ first rest, ∀ part, cutAt [c] 0 part s = (part.reverse ++ first) :: rest := by
  induction s with
  | nil => exact ⟨[], [], fun part => by simp [cutAt]⟩
  | cons d s ih =>
    by_cases hd : c = d
    · subst hd
      exact ⟨[], parts [c] s, fun part => by simp [cutAt, parts]⟩
    · obtain ⟨first, rest, h⟩ := ih
      exact ⟨d :: first, rest, fun part => by simp [cutAt, hd, h]⟩

theorem cutAt_front {c : Char} {front : List Char} (h : c ∉ front) (part s : List Char) :
    cutAt [c] 0 part (front ++ s) = cutAt [c] 0 (front.reverse ++ part) s := by
  induction front generalizing part with
  | nil => rfl
  | cons d front ih =>
    rw [mem_cons, not_or] at h
    simp [cutAt, h.1, ih h.2]

theorem bareLines_eq (s : String) : bareLines s
    = ((parts ['\n'] s.toList).map fun l => String.ofList (dropStart isBlank l)).filter (· ≠ "") := by
  simp [bareLines, splitParts, trimStart, comp_def]

theorem bareLines_break (s t : String) : bareLines (s ++ "\n" ++ t) = bareLines s ++ bareLines t := by
  have hparts : parts ['\n'] (s ++ "\n" ++ t).toList = parts ['\n'] s.toList ++ parts ['\n'] t.toList := by
    simpa [parts] using cutAt_break '\n' [] s.toList t.toList
  rw [bareLines_eq, hparts, map_append, filter_append, ← bareLines_eq, ← bareLines_eq]

@[simp] theorem bareLines_empty : bareLines "" = [] := by decide

theorem bareLines_front {front : String} (h : ∀ c ∈ front.toList, c = ' ') (s : String) :
    bareLines (front ++ s) = bareLines s := by
  obtain ⟨first, rest, hcut⟩ := exists_cutAt_eq '\n' s.toList
  have hbreak : '\n' ∉ front.toList := fun hmem => absurd (h '\n' hmem) (by decide)
  have hblank : ∀ c ∈ front.toList, isBlank c = true := by
    intro c hc
    rw [h c hc]
    decide
  have hfront : parts ['\n'] (front ++ s).toList = (front.toList ++ first) :: rest := by
    rw [parts, String.toList_append, cutAt_front hbreak, hcut]
    simp
  have hself : parts ['\n'] s.toList = first :: rest := by
    rw [parts, hcut]
    rfl
  have hdrop : dropStart isBlank (front.toList ++ first) = dropStart isBlank first := by
    rw [dropStart, dropStart, dropWhile_append_of_pos hblank]
  rw [bareLines_eq, bareLines_eq, hfront, hself, map_cons, map_cons, hdrop]

theorem bareLines_intercalate (xs : List String) : bareLines ("\n".intercalate xs) = xs.flatMap bareLines := by
  induction xs with
  | nil => decide
  | cons x xs ih =>
    cases xs with
    | nil => simp
    | cons y ys =>
      have hcons : "\n".intercalate (x :: y :: ys) = x ++ "\n" ++ "\n".intercalate (y :: ys) := by
        simp
      rw [hcons, bareLines_break, ih]
      rfl

end Text

open Text

theorem bareLines_blockStop (x : Insert) (s : String) : bareLines (s ++ Sheets.blockStop x) = bareLines s := by
  unfold Sheets.blockStop
  split
  · have h := bareLines_break s ""
    simpa using h
  · simp

theorem Forest.bareLines_blocks (ss : Sheets) (f : Forest) (indent : Int) :
    (f.blocks ss indent).flatMap bareLines = f.sheets.flatMap fun j => (ss.sheet j).lines.flatMap bareLines := by
  induction f generalizing indent with
  | nil => rfl
  | cons x j below behind ihbelow ihbehind =>
    rw [blocks, flatMap_cons, bareLines_blockStop, bareLines_front (Desk.margin_blank indent),
      bareLines_intercalate, flatMap_append, ihbelow, ihbehind]
    simp [sheets]

/-! ### Logs -/

/-- The lines that a call is written as. -/
def Workroom.rendered (w : Workroom) (k : Nat) (e : Event) : List String :=
  match w.writers[k]? with
  | some (.writer shape i closing _) => bareLines (Listing.wording shape closing (w.sheets.sheet i).indent e)
  | _ => []

/-- A call that succeeded. -/
structure Entry where
  number : Nat
  writer : Nat
  lines : List String
  opened? : Option Nat

namespace Entry

/-- The writer that the lines belong to: a heading belongs to the writer of its construct. -/
def receiver (x : Entry) : Nat :=
  x.opened?.getD x.writer

/-- Lines that belong to one writer are in the order of their calls. -/
def InOrder (x y : Entry) : Prop :=
  x.receiver = y.receiver → x.number < y.number

end Entry

/-- A writer has handed out another one, or one of those above it. -/
inductive Above (log : List Entry) : Nat → Nat → Prop where
  | maker {x : Entry} {k : Nat} (hx : x ∈ log) (hk : x.opened? = some k) : Above log x.writer k
  | trans {i j k : Nat} (hij : Above log i j) (hjk : Above log j k) : Above log i k

/-- A writer above one that was handed out has been called again. -/
def Retired (log : List Entry) (k : Nat) : Prop :=
  ∃ before x between, log = before ++ x :: between ∧ x.opened? = some k ∧ ∃ y ∈ between, Above log y.writer k

/-- No writer is called any more once a writer above it has been called again. -/
def Orderly (log : List Entry) : Prop :=
  ∀ before x after, log = before ++ x :: after → ¬ Retired before x.writer

theorem Above.mono {log log' : List Entry} {i k : Nat} (h : Above log i k) (hsub : ∀ x ∈ log, x ∈ log') :
    Above log' i k := by
  induction h with
  | maker hx hk => exact .maker (hsub _ hx) hk
  | trans _ _ ihij ihjk => exact .trans ihij ihjk

variable {log : List Entry} {k : Nat}

theorem Retired.append (h : Retired log k) (more : List Entry) : Retired (log ++ more) k := by
  obtain ⟨before, x, between, rfl, hx, y, hy, habove⟩ := h
  refine ⟨before, x, between ++ more, by simp, hx, y, mem_append_left _ hy, habove.mono fun z hz => ?_⟩
  exact mem_append_left _ hz

theorem Orderly.of_append {log more : List Entry} (h : Orderly (log ++ more)) : Orderly log := by
  rintro before x after rfl
  exact h before x (after ++ more) (by simp)

/-- A workroom with the log of its calls. -/
structure Ledger where
  room : Workroom
  log : List Entry

namespace Ledger

/-- Makes a call, which has to succeed. -/
def call? (l : Ledger) (c : Nat × Event) : Option Ledger :=
  match l.room.call c.1 c.2 with
  | (.error _, _) => none
  | (.ok opened?, room) => some ⟨room, l.log ++ [⟨l.log.length, c.1, l.room.rendered c.1 c.2, opened?⟩]⟩

/-- Makes calls, which have to succeed. -/
def run? (l : Ledger) (cs : List (Nat × Event)) : Option Ledger :=
  cs.foldlM call? l

end Ledger

/-! ### Where the entries are -/

/-- The entries of a log stand on the sheets of a forest: which ones on which sheet, in which order. -/
structure Filed (ss : Sheets) (log : List Entry) (tree : Forest) (file : Nat → List Entry) : Prop where
  waits : ∃ xs, tree.Waits ss xs
  nodup : tree.sheets.Nodup
  lt : ∀ j ∈ tree.sheets, j < ss.size
  written : ∀ j ∈ tree.sheets, (ss.sheet j).lines.flatMap bareLines = (file j).flatMap Entry.lines
  perm : (tree.sheets.flatMap file).Perm log
  own : ∀ j ∈ tree.sheets, ∀ x ∈ file j, x.receiver = j ∨ x.receiver ∉ tree.sheets
  sorted : (tree.sheets.flatMap file).Pairwise Entry.InOrder
  earlier : ∀ x ∈ log, x.number < log.length ∧ x.receiver < ss.size

theorem flatMap_update {file : Nat → List Entry} {js : List Nat} (h : k ∉ js) (xs : List Entry) :
    js.flatMap (update file k xs) = js.flatMap file := by
  refine flatMap_congr fun j hj => ?_
  rw [update_of_ne]
  rintro rfl
  exact h hj

namespace Filed

open Sheets Forest

variable {ss : Sheets} {log : List Entry} {tree : Forest} {file : Nat → List Entry} {k : Nat}

variable (h : Filed ss log tree file)

include h

theorem settle (hk : k ∈ tree.edge) : Filed (ss.settle k) log (tree.graft k .nil)
      (update file k (file k ++ (tree.under k).sheets.flatMap file)) := by
  obtain ⟨xs, hwaits⟩ := h.waits
  have hmem := mem_sheets_of_mem_edge hk
  obtain ⟨hsize, hself, -, hother⟩ := settle_under hwaits h.nodup h.lt hmem
  obtain ⟨before, after, hsheets, hgraft, hend⟩ := sheets_split h.nodup hmem
  obtain rfl := hend hk
  rw [append_nil] at hsheets
  have hnodup := h.nodup
  rw [hsheets, nodup_append, nodup_cons] at hnodup
  obtain ⟨-, ⟨hkbelow, -⟩, hdisjoint⟩ := hnodup
  have hkbefore : k ∉ before := fun hm => hdisjoint k hm k mem_cons_self rfl
  have hgrafted : (tree.graft k .nil).sheets = before ++ [k] := hgraft .nil
  have hsub : ∀ j ∈ before ++ [k], j ∈ tree.sheets := by
    intro j hj
    rw [hsheets]
    exact mem_append.mpr ((mem_append.mp hj).imp_right fun hj => mem_cons.mpr (.inl (mem_singleton.mp hj)))
  -- the entries are the same, in the same order
  have hfile : (tree.graft k .nil).sheets.flatMap (update file k (file k ++ (tree.under k).sheets.flatMap file))
      = tree.sheets.flatMap file := by
    rw [hgrafted, flatMap_append, flatMap_update hkbefore, hsheets]
    simp
  refine ⟨⟨xs, hwaits.settled h.nodup h.lt hmem⟩, ?_, ?_, ?_, ?_, ?_, ?_, ?_⟩
  · rw [hgrafted]
    refine h.nodup.sublist ?_
    rw [hsheets]
    exact .append_left (singleton_sublist.mpr mem_cons_self) before
  · rw [hgrafted, hsize]
    exact fun j hj => h.lt j (hsub j hj)
  · rw [hgrafted]
    intro j hj
    by_cases hjk : j = k
    · subst hjk
      rw [hself, update_self, flatMap_append, bareLines_blocks, h.written j hmem, flatMap_append, flatMap_assoc]
      refine congrArg _ (flatMap_congr fun i hi => h.written i ?_)
      exact (tree.sheets_under_sublist j).mem hi
    · have hjbefore : j ∈ before := (mem_append.mp hj).resolve_right fun hm => hjk (mem_singleton.mp hm)
      have hjbelow : j ∉ k :: (tree.under k).sheets := fun hm => hdisjoint j hjbefore j hm rfl
      rw [hother j hjbelow, update_of_ne hjk, h.written j (hsub j hj)]
  · rw [hfile]
    exact h.perm
  · rw [hgrafted]
    intro j hj x hx
    by_cases hjk : j = k
    · subst hjk
      rw [update_self] at hx
      rcases mem_append.mp hx with hx | hx
      · exact (h.own j hmem x hx).imp_right fun hnot hm => hnot (hsub _ hm)
      · obtain ⟨i, hi, hx⟩ := mem_flatMap.mp hx
        refine .inr ?_
        rcases h.own i ((tree.sheets_under_sublist j).mem hi) x hx with hreceiver | hnot
        · rw [hreceiver, mem_append, mem_singleton, not_or]
          refine ⟨fun hm => hdisjoint i hm i (mem_cons_of_mem _ hi) rfl, ?_⟩
          rintro rfl
          exact hkbelow hi
        · exact fun hm => hnot (hsub _ hm)
    · rw [update_of_ne hjk] at hx
      exact (h.own j (hsub j hj) x hx).imp_right fun hnot hm => hnot (hsub _ hm)
  · rw [hfile]
    exact h.sorted
  · rw [hsize]
    exact h.earlier

theorem rewrite (hk : k ∈ tree.sheets) {s : Sheet} {x : Entry} (hinserts : s.inserts = (ss.sheet k).inserts)
    (hlines : s.lines.flatMap bareLines = (ss.sheet k).lines.flatMap bareLines ++ x.lines)
    (hreceiver : x.receiver = k) (hnumber : x.number = log.length) :
    Filed (ss.update k fun _ => s) (log ++ [x]) tree (update file k (file k ++ [x])) := by
  obtain ⟨xs, hwaits⟩ := h.waits
  obtain ⟨before, after, hsheets⟩ := append_of_mem hk
  have hnodup := h.nodup
  rw [hsheets, nodup_append, nodup_cons] at hnodup
  obtain ⟨-, ⟨hkafter, -⟩, hdisjoint⟩ := hnodup
  have hkbefore : k ∉ before := fun hm => hdisjoint k hm k mem_cons_self rfl
  have hself : (ss.update k fun _ => s).sheet k = s := sheet_update_self (h.lt k hk)
  have hother : ∀ j, j ≠ k → (ss.update k fun _ => s).sheet j = ss.sheet j := fun j hj => sheet_update_of_ne hj
  -- the entry stands between those in front of it and those of later sheets
  have hfile : tree.sheets.flatMap file = (before.flatMap file ++ file k) ++ after.flatMap file := by
    rw [hsheets]
    simp
  have hfile' : tree.sheets.flatMap (update file k (file k ++ [x]))
      = (before.flatMap file ++ file k) ++ x :: after.flatMap file := by
    rw [hsheets, flatMap_append, flatMap_cons, flatMap_update hkbefore, flatMap_update hkafter]
    simp
  have hperm := h.perm
  have hsorted := h.sorted
  rw [hfile] at hperm hsorted
  refine ⟨⟨xs, hwaits.congr fun j _ => ?_⟩, h.nodup, ?_, fun j hj => ?_, ?_, fun j hj y hy => ?_, ?_, fun y hy => ?_⟩
  · by_cases hjk : j = k
    · rw [hjk, hself, hinserts]
    · rw [hother j hjk]
  · rw [size_update]
    exact h.lt
  · by_cases hjk : j = k
    · rw [hjk, hself, hlines, h.written k hk]
      simp
    · rw [hother j hjk, update_of_ne hjk, h.written j hj]
  · rw [hfile']
    exact perm_middle.trans ((hperm.cons x).trans (perm_append_singleton x log).symm)
  · by_cases hjk : j = k
    · subst hjk
      rw [update_self] at hy
      rcases mem_append.mp hy with hy | hy
      · exact h.own j hj y hy
      · rw [mem_singleton.mp hy]
        exact .inl hreceiver
    · rw [update_of_ne hjk] at hy
      exact h.own j hj y hy
  · rw [hfile']
    rw [pairwise_append] at hsorted ⊢
    obtain ⟨hfront, hback, hboth⟩ := hsorted
    refine ⟨hfront, pairwise_cons.mpr ⟨fun y hy => ?_, hback⟩, fun y hy z hz => ?_⟩
    · -- the sheets behind have no entries of this writer
      intro hsame
      obtain ⟨i, hi, hy⟩ := mem_flatMap.mp hy
      have hi' : i ∈ tree.sheets := by
        rw [hsheets]
        exact mem_append_right _ (mem_cons_of_mem _ hi)
      rcases h.own i hi' y hy with heq | hnot
      · rw [hreceiver, heq] at hsame
        exact absurd (hsame ▸ hi) hkafter
      · rw [← hsame, hreceiver] at hnot
        exact absurd hk hnot
    · rcases mem_cons.mp hz with rfl | hz
      · intro _
        rw [hnumber]
        exact (h.earlier y (hperm.mem_iff.mp (mem_append_left _ hy))).1
      · exact hboth y hy z hz
  · rw [size_update, length_append]
    rcases mem_append.mp hy with hy | hy
    · exact ⟨lt_succ_of_lt (h.earlier y hy).1, (h.earlier y hy).2⟩
    · rw [mem_singleton.mp hy, hnumber, hreceiver]
      exact ⟨lt_succ_self _, h.lt k hk⟩

theorem openOn (hk : k ∈ tree.edge) {t : Listing.Heading} {x : Entry}
    (hlines : x.lines = bareLines t.text) (hreceiver : x.receiver = ss.size) (hnumber : x.number = log.length) :
    Filed (ss.openOn k t) (log ++ [x]) (tree.graft k ((tree.under k).snoc ⟨t.shape, false, some ss.size⟩ ss.size))
      (update file ss.size [x]) := by
  obtain ⟨xs, hwaits⟩ := h.waits
  have hmem := mem_sheets_of_mem_edge hk
  obtain ⟨before, after, hsheets, hgraft, hend⟩ := sheets_split h.nodup hmem
  obtain rfl := hend hk
  have hgrafted := hgraft ((tree.under k).snoc ⟨t.shape, false, some ss.size⟩ ss.size)
  have hgrown : (tree.graft k ((tree.under k).snoc ⟨t.shape, false, some ss.size⟩ ss.size)).sheets
      = tree.sheets ++ [ss.size] := by
    rw [hgrafted, hsheets, sheets_snoc]
    simp
  have hnew : ss.size ∉ tree.sheets := fun hm => lt_irrefl _ (h.lt _ hm)
  have hks := h.lt k hmem
  have hfile : (tree.sheets ++ [ss.size]).flatMap (update file ss.size [x]) = tree.sheets.flatMap file ++ [x] := by
    rw [flatMap_append, flatMap_update hnew]
    simp
  refine ⟨⟨xs, hwaits.opened h.nodup h.lt hmem t⟩, ?_, ?_, ?_, ?_, ?_, ?_, fun y hy => ?_⟩
  · rw [hgrown]
    exact h.nodup.append (nodup_singleton _) (by simpa using hnew)
  · rw [hgrown, size_openOn]
    intro j hj
    rcases mem_append.mp hj with hj | hj
    · exact lt_succ_of_lt (h.lt j hj)
    · rw [mem_singleton.mp hj]
      exact lt_succ_self _
  · rw [hgrown]
    intro j hj
    rcases mem_append.mp hj with hj | hj
    · have hjs := h.lt j hj
      rw [update_of_ne (Nat.ne_of_lt hjs), ← h.written j hj]
      by_cases hjk : j = k
      · rw [hjk, sheet_openOn_self t hks]
      · rw [sheet_openOn_of_lt t hjs hjk]
    · rw [mem_singleton.mp hj, (holds_openOn t hks).sheet_eq]
      simp [bareLines_front (Desk.margin_blank t.indent), hlines]
  · rw [hgrown, hfile]
    exact h.perm.append_right [x]
  · rw [hgrown]
    intro j hj y hy
    rcases mem_append.mp hj with hj | hj
    · rw [update_of_ne (Nat.ne_of_lt (h.lt j hj))] at hy
      refine (h.own j hj y hy).imp_right fun hnot hm => ?_
      rcases mem_append.mp hm with hm | hm
      · exact hnot hm
      · have hlog : y ∈ log := h.perm.mem_iff.mp (mem_flatMap.mpr ⟨j, hj, hy⟩)
        exact Nat.ne_of_lt (h.earlier y hlog).2 (mem_singleton.mp hm)
    · rw [mem_singleton.mp hj, update_self] at hy
      rw [mem_singleton.mp hj, mem_singleton.mp hy]
      exact .inl hreceiver
  · rw [hgrown, hfile, pairwise_append]
    refine ⟨h.sorted, pairwise_singleton _ _, fun y hy z hz _ => ?_⟩
    rw [mem_singleton.mp hz, hnumber]
    exact (h.earlier y (h.perm.mem_iff.mp hy)).1
  · rw [size_openOn, length_append]
    rcases mem_append.mp hy with hy | hy
    · exact ⟨lt_succ_of_lt (h.earlier y hy).1, lt_succ_of_lt (h.earlier y hy).2⟩
    · rw [mem_singleton.mp hy, hnumber, hreceiver]
      exact ⟨lt_succ_self _, lt_succ_self _⟩

end Filed

/-! ### Who may be called -/

/-- The writers that may still be called: each stands above those behind it, and all others are retired. -/
structure Standing (log : List Entry) (count : Nat) (stack : List Nat) : Prop where
  head : stack.head? = some 0
  above : stack.Pairwise (Above log)
  made : ∀ k ∈ stack.tail, ∃ x ∈ log, x.opened? = some k
  others : ∀ k < count, k ∈ stack ∨ Retired log k

theorem Standing.call {count count' k : Nat} {upper lower : List Nat}
    (h : Standing log count (upper ++ k :: lower)) {x : Entry} (hwriter : x.writer = k)
    (hopened : ∀ m, x.opened? = some m → m = count) (hcount : count' = count + x.opened?.toList.length) :
    Standing (log ++ [x]) count' (upper ++ k :: x.opened?.toList) := by
  subst hcount
  have hmono : ∀ {i j}, Above log i j → Above (log ++ [x]) i j := fun hij =>
    hij.mono fun y hy => mem_append_left _ hy
  have hlast : x ∈ log ++ [x] := mem_append_right _ (mem_singleton_self x)
  obtain ⟨hupper, hlower, hboth⟩ := pairwise_append.mp h.above
  have hnew : ∀ m ∈ x.opened?.toList, Above (log ++ [x]) k m := by
    intro m hm
    rw [← hwriter]
    exact .maker hlast (mem_toList.mp hm)
  refine ⟨?_, ?_, fun m hm => ?_, fun m hm => ?_⟩
  · have hhead := h.head
    cases upper <;> exact hhead
  · rw [pairwise_append, pairwise_cons]
    refine ⟨hupper.imp hmono, ⟨hnew, ?_⟩, fun i hi j hj => ?_⟩
    · cases x.opened? <;> simp
    · have hik := hmono (hboth i hi k mem_cons_self)
      rcases mem_cons.mp hj with rfl | hj
      · exact hik
      · exact .trans hik (hnew j hj)
  · have hm' : m ∈ (upper ++ k :: lower).tail ∨ m ∈ x.opened?.toList := by
      cases upper with
      | nil => exact .inr hm
      | cons i upper =>
        rcases mem_append.mp hm with hm | hm
        · exact .inl (mem_append_left _ hm)
        · rcases mem_cons.mp hm with rfl | hm
          · exact .inl (mem_append_right _ mem_cons_self)
          · exact .inr hm
    rcases hm' with hm | hm
    · obtain ⟨y, hy, hopen⟩ := h.made m hm
      exact ⟨y, mem_append_left _ hy, hopen⟩
    · exact ⟨x, hlast, mem_toList.mp hm⟩
  · by_cases hmc : m < count
    · rcases h.others m hmc with hstack | hretired
      · rcases mem_append.mp hstack with hm' | hm'
        · exact .inl (mem_append_left _ hm')
        rcases mem_cons.mp hm' with rfl | hm'
        · exact .inl (mem_append_right _ mem_cons_self)
        · -- a writer below the one that is called
          have htail : m ∈ (upper ++ k :: lower).tail := by
            cases upper with
            | nil => exact hm'
            | cons i upper => exact mem_append_right _ (mem_cons_of_mem _ hm')
          obtain ⟨y, hy, hopen⟩ := h.made m htail
          obtain ⟨before, between, rfl⟩ := append_of_mem hy
          refine .inr ⟨before, y, between ++ [x], by simp, hopen, x, mem_append_right _ (.head _), ?_⟩
          rw [hwriter]
          exact hmono ((pairwise_cons.mp hlower).1 m hm')
      · exact .inr (hretired.append [x])
    · refine .inl (mem_append_right _ (mem_cons_of_mem _ ?_))
      rcases hx : x.opened? with _ | j
      · rw [hx] at hm
        exact absurd hm hmc
      · rw [hx] at hm
        have hj := hopened j hx
        have hmj : m = j := by
          simp only [toList_some, length_singleton] at hm
          omega
        rw [hmj]
        exact mem_singleton_self j

/-! ### Runs -/

theorem Workroom.Tidy.call_ok {w w' : Workroom} (h : w.Tidy) {e : Event} {opened? : Option Nat}
    (hcall : w.call k e = (.ok opened?, w')) :
    ∃ shape closing, w.writers[k]? = some (.writer shape k closing .nobody) ∧ k < w.sheets.size ∧
      ∃ r, ((w.readied shape k e).sheet k).inscribe shape closing e = .ok r ∧
        (w.lay (w.readied shape k e)).inscribed k (.ok r) = (.ok opened?, w') := by
  by_cases hk : k < w.sheets.size
  · obtain ⟨shape, closing, hwriter⟩ := h.writer k hk
    rw [call_eq hwriter] at hcall
    split at hcall
    · rcases hr : ((w.readied shape k e).sheet k).inscribe shape closing e with f | r
      · rw [hr] at hcall
        cases hcall
      · rw [hr] at hcall
        exact ⟨shape, closing, hwriter, hk, r, hr, hcall⟩
    · cases hcall
  · have hnone : w.writers[k]? = none := getElem?_eq_none (h.length_eq ▸ Nat.le_of_not_lt hk)
    rw [Workroom.call, hnone] at hcall
    cases hcall

theorem Filed.readied {w : Workroom} {tree : Forest} {file : Nat → List Entry}
    (h : Filed w.sheets log tree file) {upper lower : List Nat} (hedge : tree.edge = upper ++ k :: lower)
    (shape : Shape) (e : Event) :
    ((w.readied shape k e).sheet k).indent = (w.sheets.sheet k).indent ∧
      ∃ tree' file' lower', Filed (w.readied shape k e) log tree' file' ∧ tree'.edge = upper ++ k :: lower' ∧
        tree'.sheets.head? = tree.sheets.head? := by
  have hk : k ∈ tree.edge := by
    rw [hedge]
    exact mem_append_right _ mem_cons_self
  unfold Workroom.readied
  split
  · obtain ⟨xs, hwaits⟩ := h.waits
    have hself := (settle_under hwaits h.nodup h.lt (mem_sheets_of_mem_edge hk)).2.1
    refine ⟨by rw [hself], _, _, _, h.settle hk, edge_graft h.nodup hedge .nil, ?_⟩
    exact tree.head?_sheets_graft k .nil
  · exact ⟨rfl, tree, file, lower, h, hedge, rfl⟩

variable {l l' : Ledger}

namespace Ledger

open Sheets

/-- The entries of the log stand on the sheets that wait below the class, and the writers that may be called lie on
the right edge. -/
def Kept (l : Ledger) : Prop :=
  l.room.Tidy ∧ ∃ tree file stack, Filed l.room.sheets l.log tree file ∧
    Standing l.log l.room.sheets.size stack ∧ stack <+: tree.edge ∧ tree.sheets.head? = some 0

theorem kept_new (indent : Int) : Kept ⟨.new indent, []⟩ := by
  refine ⟨Workroom.tidy_new indent, .cons ⟨.classDef, false, some 0⟩ 0 .nil .nil, fun _ => [], [0],
    ⟨⟨_, [], rfl, rfl, rfl, rfl⟩, ?_, ?_, ?_, .refl _, ?_, .nil, ?_⟩, ⟨rfl, ?_, ?_, ?_⟩, prefix_rfl, rfl⟩
  · exact nodup_singleton 0
  · intro j hj
    rw [mem_singleton.mp hj]
    exact zero_lt_one
  · intro j hj
    rw [mem_singleton.mp hj]
    rfl
  · exact fun _ _ _ hx => absurd hx not_mem_nil
  · exact fun _ hx => absurd hx not_mem_nil
  · exact pairwise_singleton _ _
  · exact fun _ hk => absurd hk not_mem_nil
  · intro k hk
    exact .inl (mem_singleton.mpr (lt_one_iff.mp hk))

theorem Kept.call? {k : Nat} {e : Event} (h : l.Kept) (hcall : l.call? (k, e) = some l') (hplain : e.verb ≠ .trailing)
    (horderly : Orderly l'.log) : l'.Kept := by
  obtain ⟨htidy, tree, file, stack, hfiled, hstanding, hprefix, hhead⟩ := h
  have htidy' := htidy.call k e
  rcases hres : l.room.call k e with ⟨f | opened?, room⟩
  · rw [Ledger.call?, hres] at hcall
    cases hcall
  rw [Ledger.call?, hres] at hcall
  cases hcall
  rw [hres] at htidy'
  obtain ⟨shape, closing, hwriter, hk, r, hinscribe, hroom⟩ := htidy.call_ok hres
  -- the writer that is called is not retired, and so lies on the right edge
  have hstack : k ∈ stack := (hstanding.others k hk).resolve_right fun hretired =>
    horderly l.log _ [] rfl hretired
  obtain ⟨upper, lower, rfl⟩ := append_of_mem hstack
  obtain ⟨more, hedge⟩ := hprefix
  rw [append_assoc] at hedge
  obtain ⟨hindent, tree₁, file₁, lower₁, hfiled₁, hedge₁, hhead₁⟩ := hfiled.readied hedge.symm shape e
  have hk₁ : k ∈ tree₁.edge := by
    rw [hedge₁]
    exact mem_append_right _ mem_cons_self
  have hrendered : l.room.rendered k e
      = bareLines (Listing.wording shape closing ((l.room.readied shape k e).sheet k).indent e) := by
    rw [Workroom.rendered, hwriter, hindent]
  have hsize := htidy.size_readied shape hk e
  refine ⟨htidy', ?_⟩
  rcases Sheet.inscribe_cases hinscribe with ⟨text, _, rfl, -⟩ | ⟨st?, rfl, hwording⟩ | ⟨t, rfl, -, hwording⟩
  · exact absurd rfl hplain
  · cases hroom
    have hput := Sheet.elim_put_eq ((l.room.readied shape k e).sheet k) st?
    refine ⟨tree₁, _, upper ++ [k], hfiled₁.rewrite (mem_sheets_of_mem_edge hk₁) (by rw [hput]) ?_ rfl rfl,
      ?_, ?_, hhead₁.trans hhead⟩
    · rw [hput, hrendered, hwording]
      cases st? with
      | none => simp
      | some st => simp [bareLines_front (Desk.margin_blank _)]
    · exact hstanding.call rfl (fun m hm => nomatch hm) ((size_update _ _ _).trans hsize)
    · exact ⟨lower₁, by rw [hedge₁]; simp⟩
  · cases hroom
    have hreceiver : l.room.writers.length = (l.room.readied shape k e).size := htidy.length_eq.trans hsize.symm
    refine ⟨_, _, upper ++ [k, l.room.writers.length], hfiled₁.openOn hk₁ (hrendered.trans (by rw [hwording]))
      hreceiver rfl, ?_, ?_, (tree₁.head?_sheets_graft k _).trans (hhead₁.trans hhead)⟩
    · exact hstanding.call rfl (fun m hm => (some.inj hm).symm.trans htidy.length_eq)
        ((size_openOn t).trans (congrArg (· + 1) hsize))
    · rw [edge_graft hfiled₁.nodup hedge₁, edge_snoc, hreceiver]

theorem log_of_call? {c : Nat × Event} (h : l.call? c = some l') : ∃ x, l'.log = l.log ++ [x] := by
  rcases hres : l.room.call c.1 c.2 with ⟨f | opened?, room⟩
  · rw [call?, hres] at h
    cases h
  · rw [call?, hres] at h
    cases h
    exact ⟨_, rfl⟩

theorem Kept.run? {cs : List (Nat × Event)} (h : l.Kept) (hrun : l.run? cs = some l')
    (hplain : ∀ c ∈ cs, c.2.verb ≠ .trailing) (horderly : Orderly l'.log) : l'.Kept := by
  induction cs using reverseRecOn generalizing l' with
  | nil =>
    cases hrun
    exact h
  | append_singleton cs c ih =>
    rw [Ledger.run?, foldlM_append] at hrun
    obtain ⟨l₁, hrun₁, hcall⟩ := bind_eq_some_iff.mp hrun
    have hcall' : l₁.call? (c.1, c.2) = some l' := by simpa using hcall
    obtain ⟨more, hmore⟩ := log_of_call? hcall'
    have hkept := ih hrun₁ (fun c' hc' => hplain c' (mem_append_left _ hc'))
      (Orderly.of_append (by rw [← hmore]; exact horderly))
    exact hkept.call? hcall' (hplain c (mem_append_right _ (mem_singleton_self c))) horderly

theorem Kept.read (h : l.Kept) : ∃ code, ∃ order : List Entry, l.room.read.1 = .ok code ∧
    order.Perm l.log ∧ bareLines code = order.flatMap Entry.lines ∧ order.Pairwise Entry.InOrder := by
  obtain ⟨-, tree, file, stack, hfiled, hstanding, ⟨more, hedge⟩, hhead⟩ := h
  have hroot : 0 ∈ tree.edge := by
    rw [← hedge]
    exact mem_append_left _ (mem_of_head? hstanding.head)
  have hmem := mem_sheets_of_mem_edge hroot
  have hsettled := hfiled.settle hroot
  obtain ⟨before, after, hsheets, hgraft, hend⟩ := sheets_split hfiled.nodup hmem
  obtain rfl := hend hroot
  -- the class is the first sheet, and once it is settled the only one
  obtain rfl : before = [] := by
    cases before with
    | nil => rfl
    | cons i before =>
      have hnodup := hfiled.nodup
      rw [hsheets] at hhead hnodup
      obtain rfl : i = 0 := some.inj hhead
      exact absurd (mem_append_right before mem_cons_self) (nodup_cons.mp hnodup).1
  have honly : (tree.graft 0 .nil).sheets = [0] := hgraft .nil
  have hperm := hsettled.perm
  have hsorted := hsettled.sorted
  have hwritten := hsettled.written 0 (by rw [honly]; exact mem_singleton_self 0)
  rw [honly, flatMap_singleton] at hperm hsorted
  exact ⟨_, _, rfl, hperm, (bareLines_intercalate _).trans hwritten, hsorted⟩

end Ledger

/-- Whether no writer that is handed out is called after a writer with a smaller number. -/
def nested : List Entry → Bool
  | [] => true
  | x :: log =>
    (x.opened?.all fun m => decide (x.writer < m) &&
      (log.dropWhile fun y => decide (m ≤ y.writer)).all fun y => y.writer != m) && nested log

theorem nested_spec (h : nested log = true) {before after : List Entry} {x : Entry} {m : Nat}
    (hlog : log = before ++ x :: after) (hx : x.opened? = some m) :
    x.writer < m ∧ ∀ y ∈ after.dropWhile fun y => decide (m ≤ y.writer), y.writer ≠ m := by
  subst hlog
  induction before with
  | nil => simpa [hx] using (Bool.and_eq_true_iff.mp h).1
  | cons y before ih => exact ih (Bool.and_eq_true_iff.mp h).2

theorem orderly_of_nested (h : nested log = true) : Orderly log := by
  have hlt : ∀ {i k}, Above log i k → i < k := by
    intro i k habove
    induction habove with
    | maker hx hk =>
      obtain ⟨before, after, hlog⟩ := append_of_mem hx
      exact (nested_spec h hlog hk).1
    | trans _ _ ihij ihjk => exact ihij.trans ihjk
  rintro before x after rfl ⟨first, y, between, rfl, hopened, z, hz, habove⟩
  have hzx := hlt (habove.mono fun _ => mem_append_left _)
  have hsplit : first ++ y :: between ++ x :: after = first ++ y :: (between ++ x :: after) := by simp
  obtain ⟨-, hnever⟩ := nested_spec h hsplit hopened
  have hstops : (between.dropWhile fun u => decide (x.writer ≤ u.writer)).isEmpty = false := by
    rw [isEmpty_eq_false_iff]
    intro hnil
    have hle := dropWhile_eq_nil_iff.mp hnil z hz
    exact absurd (of_decide_eq_true hle) (Nat.not_le_of_lt hzx)
  rw [dropWhile_append, hstops] at hnever
  exact hnever x (mem_append_right _ mem_cons_self) rfl

/-- Whatever is written by the calls of an orderly run stands in the code of the class once: its lines are those of
the calls, and the lines that belong to one writer are in the order of their calls. -/
theorem bareLines_read_of_orderly {indent : Int} {cs : List (Nat × Event)} {l : Ledger}
    (hrun : Ledger.run? ⟨.new indent, []⟩ cs = some l) (hplain : ∀ c ∈ cs, c.2.verb ≠ .trailing)
    (horderly : Orderly l.log) :
    ∃ code, l.room.read.1 = .ok code ∧ (bareLines code).Perm (l.log.flatMap Entry.lines) ∧
      ∃ order : List Entry, order.Perm l.log ∧ bareLines code = order.flatMap Entry.lines ∧ order.Pairwise Entry.InOrder := by
  obtain ⟨code, order, hread, hperm, hlines, hsorted⟩ := ((Ledger.kept_new indent).run? hrun hplain horderly).read
  refine ⟨code, hread, ?_, order, hperm, hlines, hsorted⟩
  rw [hlines]
  exact hperm.flatMap_right Entry.lines

/-- A class with an annotated field, an annotated method with a comment, and an inner class with a field. -/
def nestedCalls : List (Nat × Event) :=
  [(0, .classDef (.text "La;") (.int 1)), (0, .field (.text "f") (.int 2) (.text "I") none),
    (1, .annot (.int 0x10000000) (.text "Lb;")),
    (2, .subAnnot (.text "s") (.int 0) (.text "Lc;")),
    (3, .value (.text "v") (.text "1")),
    (3, .close),
    (2, .close),
    (1, .close),
    (0, .superClass (.text "Ljava/lang/Object;")),
    (0, .comment (.text "two\n  lines")),
    (0, .method (.text "m") (.int 1) (.list []) (.text "V")),
    (4, .annot (.int 0x10000000) (.text "Ld;")),
    (5, .close),
    (4, .comment (.text "body")),
    (4, .locals (.int 1)),
    (4, .close),
    (0, .innerClass (.text "La$b;") (.int 1)),
    (6, .field (.text "g") (.int 2) (.text "J") none),
    (7, .close),
    (6, .close),
    (0, .close)]

theorem bareLines_read_nestedCalls : ∃ l, Ledger.run? ⟨.new 0, []⟩ nestedCalls = some l ∧ Orderly l.log ∧
    l.log.length = 21 ∧ ∃ code, l.room.read.1 = .ok code ∧ (bareLines code).Perm (l.log.flatMap Entry.lines) ∧
      ∃ order : List Entry, order.Perm l.log ∧ bareLines code = order.flatMap Entry.lines ∧
        order.Pairwise Entry.InOrder := by
  have hcheck : (Ledger.run? ⟨.new 0, []⟩ nestedCalls).map (fun l => (nested l.log, l.log.length)) = some (true, 21) := by
    decide +kernel
  obtain ⟨l, hrun, hl⟩ := map_eq_some_iff.mp hcheck
  obtain ⟨hnested, hlength⟩ := Prod.mk.inj hl
  have horderly := orderly_of_nested hnested
  exact ⟨l, hrun, horderly, hlength, bareLines_read_of_orderly hrun (by decide) horderly⟩

end Dalvik
