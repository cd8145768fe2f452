import Dalvik.Proofs.Ledgers

/-!
# Readings

Reading the code of a class settles its sheet: what waits below the class becomes part of its lines, and the writers
of these constructs go on with empty sheets that no longer belong to the class. A reading is therefore noticed later
in some continuation exactly if something waits (`Workroom.run_read_eq_iff`). It is not noticed as long as none of
the constructs that waited is called, and the class itself only opens constructs, until its sheet is settled anyway
(`Unnoticed`).

The two runs, with and without the reading, are compared by `Shadow`: the sheets that waited are cleared in one and
still wait in the other, the class has their blocks in one and not yet in the other, and all other sheets agree.
-/

namespace Dalvik

open Text List Listing Sheet Forest

variable {s : Sheet} {e : Event} {w : Workroom} {ss : Sheets}

namespace Sheets

theorem ext_sheet {ss ss' : Sheets} (hsize : ss.size = ss'.size)
    (hsame : ∀ j < ss.size, ss.sheet j = ss'.sheet j) : ss = ss' := by
  refine Array.ext hsize fun j hj hj' => ?_
  have h := hsame j hj
  rwa [sheet, sheet, Array.getElem?_eq_getElem hj, Array.getElem?_eq_getElem hj'] at h

theorem sheet_openOn {ss : Sheets} {i : Nat} (hi : i < ss.size) (h : Heading) (j : Nat) :
    (ss.openOn i h).sheet j = if j = i then
        { ss.sheet i with inserts := (ss.sheet i).inserts ++ [⟨h.shape, false, some ss.size⟩] }
      else if j = ss.size then ⟨h.indent, [margin h.indent ++ h.text], []⟩ else ss.sheet j := by
  split
  · rename_i hji
    rw [hji, sheet_openOn_self h hi]
  split
  · rename_i hjs
    rw [hjs, (holds_openOn h hi).sheet_eq]
  · rename_i hji hjs
    rw [openOn, sheet_update_of_ne hji, sheet_update_of_ne hjs, sheet_push, if_neg hjs]

/-- A sheet waits on another one, or below one that does. -/
inductive Below (ss : Sheets) (i : Nat) : Nat → Prop where
  | waits {x : Insert} {j : Nat} (hx : x ∈ (ss.sheet i).inserts) (hj : x.sheet? = some j) : Below ss i j
  | under {x : Insert} {j k : Nat} (h : Below ss i j) (hx : x ∈ (ss.sheet j).inserts) (hk : x.sheet? = some k) :
      Below ss i k

end Sheets

namespace Forest

variable {ss : Sheets} {f : Forest} {xs zs : List Insert} {i : Nat}

theorem Waits.below (h : f.Waits ss xs) (hxs : ∀ x ∈ xs, ∀ j, x.sheet? = some j → ss.Below i j) :
    ∀ j ∈ f.sheets, ss.Below i j := by
  induction f generalizing xs with
  | nil => exact fun j hj => absurd hj not_mem_nil
  | cons x k below behind ihbelow ihbehind =>
    obtain ⟨ys, rfl, hx, hbelow, hbehind⟩ := h
    have hk := hxs x mem_cons_self k hx
    intro j hj
    rcases mem_cons.mp hj with rfl | hj
    · exact hk
    rcases mem_append.mp hj with hj | hj
    · exact ihbelow hbelow (fun y hy m hm => .under hk hy hm) j hj
    · exact ihbehind hbehind (fun y hy => hxs y (mem_cons_of_mem x hy)) j hj

theorem Waits.sublist (h : f.Waits ss zs) (hsub : xs.Sublist zs) :
    ∃ g : Forest, g.Waits ss xs ∧ g.sheets.Sublist f.sheets := by
  induction f generalizing xs zs with
  | nil =>
    obtain rfl : zs = [] := h
    exact ⟨nil, sublist_nil.mp hsub, Sublist.refl _⟩
  | cons x j below behind _ ihbehind =>
    obtain ⟨ys, rfl, hx, hbelow, hbehind⟩ := h
    cases hsub with
    | cons _ hsub =>
      obtain ⟨g, hg, hsheets⟩ := ihbehind hbehind hsub
      exact ⟨g, hg, (hsheets.trans (sublist_append_right _ _)).cons j⟩
    | cons_cons _ hsub =>
      obtain ⟨g, hg, hsheets⟩ := ihbehind hbehind hsub
      exact ⟨cons x j below g, ⟨_, rfl, hx, hbelow, hg⟩, (Sublist.append_left hsheets _).cons_cons j⟩

end Forest

/-! ### Two runs side by side -/

open Sheets Forest

/-- The sheets of a run in which the class was read, beside those of the run in which it was not: `f` is what waited
at that time. -/
structure Shadow (f : Forest) (ys : List Insert) (ss ss' : Sheets) : Prop where
  size_eq : ss'.size = ss.size
  waits : f.Waits ss ys
  class_eq : ∃ xs zs, ∃ rest : Forest, (ss.sheet 0).inserts = ys ++ xs ∧
    ss'.sheet 0 = ⟨(ss.sheet 0).indent, (ss.sheet 0).lines ++ f.blocks ss (ss.sheet 0).indent, xs⟩ ∧
    xs.Sublist zs ∧ rest.Waits ss zs ∧ (0 :: (f.sheets ++ rest.sheets)).Perm (range ss.size)
  cleared : ∀ j ∈ f.sheets, ss'.sheet j = (ss.sheet j).clear
  other : ∀ j, j ∉ 0 :: f.sheets → ss'.sheet j = ss.sheet j

namespace Shadow

variable {f : Forest} {ys : List Insert} {ss ss' : Sheets} {k : Nat}

theorem of_planted (h : ss.Planted) : ∃ f, Waits ss f (ss.sheet 0).inserts ∧
    Shadow f (ss.sheet 0).inserts ss (ss.settle 0) := by
  obtain ⟨g, xs, hwaits, hperm, hhead⟩ := h
  cases g with
  | nil => cases hhead
  | cons x j f rest =>
    obtain rfl : j = 0 := Option.some.inj hhead
    obtain ⟨zs, rfl, -, hf, hrest⟩ := hwaits
    have hnodup : (0 :: f.sheets).Nodup :=
      (hperm.nodup_iff.mpr nodup_range).sublist ((sublist_append_left _ _).cons_cons 0)
    have hlt : ∀ j ∈ 0 :: f.sheets, j < ss.size := fun j hj => mem_range.mp (hperm.mem_iff.mp
      (Sublist.mem hj ((sublist_append_left _ _).cons_cons 0)))
    obtain ⟨hsize, hself, hcleared, hother⟩ := settle hf hnodup hlt
    exact ⟨f, hf, hsize, hf, ⟨[], zs, rest, by simp, hself, nil_sublist _, hrest, hperm⟩, hcleared, hother⟩

theorem elsewhere (h : Shadow f ys ss ss') {t t' : Sheets} (hsize : t'.size = t.size)
    (hkeep : ∀ j ∈ 0 :: f.sheets, t.sheet j = ss.sheet j ∧ t'.sheet j = ss'.sheet j)
    (hsame : ∀ j, j ∉ 0 :: f.sheets → t'.sheet j = t.sheet j)
    (hrest : ∀ (rest : Forest) zs, rest.Waits ss zs → (0 :: (f.sheets ++ rest.sheets)).Perm (range ss.size) →
      ∃ rest' : Forest, ∃ more, rest'.Waits t (zs ++ more) ∧
        (0 :: (f.sheets ++ rest'.sheets)).Perm (range t.size)) : Shadow f ys t t' := by
  obtain ⟨xs, zs, rest, hinserts, hclass, hsub, hwaits, hperm⟩ := h.class_eq
  obtain ⟨rest', more, hwaits', hperm'⟩ := hrest rest zs hwaits hperm
  have hmem : ∀ j ∈ f.sheets, j ∈ 0 :: f.sheets := fun j hj => mem_cons_of_mem 0 hj
  have hroot := hkeep 0 mem_cons_self
  refine ⟨hsize, h.waits.congr fun j hj => by rw [(hkeep j (hmem j hj)).1],
    ⟨xs, zs ++ more, rest', ?_, ?_, hsub.trans (sublist_append_left _ _), hwaits', hperm'⟩, fun j hj => ?_, hsame⟩
  · rw [hroot.1, hinserts]
  · rw [hroot.2, hclass, hroot.1, blocks_congr fun j hj => (hkeep j (hmem j hj)).1]
  · rw [(hkeep j (hmem j hj)).1, (hkeep j (hmem j hj)).2, h.cleared j hj]

theorem rest_spec {rest : Forest} {n : Nat} (hperm : (0 :: (f.sheets ++ rest.sheets)).Perm (range n)) :
    rest.sheets.Nodup ∧ (∀ j ∈ rest.sheets, j < n ∧ j ∉ 0 :: f.sheets) ∧
      ∀ j < n, j ∉ 0 :: f.sheets → j ∈ rest.sheets := by
  have hnodup : ((0 :: f.sheets) ++ rest.sheets).Nodup := hperm.nodup_iff.mpr nodup_range
  obtain ⟨-, hrest, hdisjoint⟩ := nodup_append.mp hnodup
  refine ⟨hrest, fun j hj => ⟨?_, fun hm => hdisjoint j hm j hj rfl⟩, fun j hj hnot => ?_⟩
  · exact mem_range.mp (hperm.mem_iff.mp (mem_append_right (0 :: f.sheets) hj))
  · have hmem : j ∈ (0 :: f.sheets) ++ rest.sheets := hperm.mem_iff.mpr (mem_range.mpr hj)
    exact (mem_append.mp hmem).resolve_left hnot

variable (h : Shadow f ys ss ss')

include h

section

variable (hk : k < ss.size) (hnot : k ∉ 0 :: f.sheets)

include hk hnot

theorem settle : Shadow f ys (ss.settle k) (ss'.settle k) := by
  obtain ⟨xs, zs, rest, -, -, -, hwaits, hperm⟩ := h.class_eq
  obtain ⟨hnodup, hrest, hall⟩ := rest_spec hperm
  have hmem := hall k hk hnot
  have hwaits' : rest.Waits ss' zs := hwaits.congr fun j hj => by rw [h.other j (hrest j hj).2]
  have hbelow : ∀ j ∈ k :: (rest.under k).sheets, j ∈ rest.sheets := by
    intro j hj
    rcases mem_cons.mp hj with rfl | hj
    · exact hmem
    · exact (rest.sheets_under_sublist k).mem hj
  obtain ⟨hsize, hself, hcleared, hother⟩ := settle_under hwaits hnodup (fun j hj => (hrest j hj).1) hmem
  obtain ⟨hsize', hself', hcleared', hother'⟩ := settle_under hwaits' hnodup
    (fun j hj => h.size_eq ▸ (hrest j hj).1) hmem
  refine h.elsewhere (by rw [hsize', hsize, h.size_eq]) (fun j hj => ?_) (fun j hj => ?_) fun rest zs hwaits hperm => ?_
  · have hj' : j ∉ k :: (rest.under k).sheets := fun hm => (hrest j (hbelow j hm)).2 hj
    exact ⟨hother j hj', hother' j hj'⟩
  · by_cases hjk : j ∈ k :: (rest.under k).sheets
    · rcases mem_cons.mp hjk with rfl | hjk
      · rw [hself, hself', h.other j hj, blocks_congr fun i hi => h.other i (hrest i (hbelow i
          (mem_cons_of_mem j hi))).2]
      · rw [hcleared j hjk, hcleared' j hjk, h.other j hj]
    · rw [hother j hjk, hother' j hjk, h.other j hj]
  · obtain ⟨hnodup, hrest, hall⟩ := rest_spec hperm
    have hmem := hall k hk hnot
    refine ⟨_, _, hwaits.detached hnodup (fun j hj => (hrest j hj).1) hmem, ?_⟩
    rw [hsize]
    exact (((sheets_detached_perm hnodup hmem).append_left f.sheets).cons 0).trans hperm

theorem rewrite (hs : s.inserts = (ss.sheet k).inserts) :
    Shadow f ys (ss.update k fun _ => s) (ss'.update k fun _ => s) := by
  have hk' : k < ss'.size := h.size_eq ▸ hk
  refine h.elsewhere (by rw [size_update, size_update, h.size_eq]) (fun j hj => ?_) (fun j hj => ?_)
    fun rest zs hwaits hperm => ?_
  · have hjk : j ≠ k := fun heq => hnot (heq ▸ hj)
    exact ⟨sheet_update_of_ne hjk, sheet_update_of_ne hjk⟩
  · by_cases hjk : j = k
    · rw [hjk, sheet_update_self hk, sheet_update_self hk']
    · rw [sheet_update_of_ne hjk, sheet_update_of_ne hjk, h.other j hj]
  · refine ⟨rest, [], ?_, by rw [size_update]; exact hperm⟩
    rw [append_nil]
    refine hwaits.congr fun j hj => ?_
    by_cases hjk : j = k
    · rw [hjk, sheet_update_self hk, hs]
    · rw [sheet_update_of_ne hjk]

theorem openOn (x : Heading) : Shadow f ys (ss.openOn k x) (ss'.openOn k x) := by
  have hk' : k < ss'.size := h.size_eq ▸ hk
  obtain ⟨-, -, rest, -, -, -, -, hperm⟩ := h.class_eq
  have hlt : ∀ j ∈ 0 :: f.sheets, j < ss.size := fun j hj => mem_range.mp (hperm.mem_iff.mp
    (mem_append_left rest.sheets hj : j ∈ (0 :: f.sheets) ++ rest.sheets))
  refine h.elsewhere (by rw [size_openOn, size_openOn, h.size_eq]) (fun j hj => ?_) (fun j hj => ?_)
    fun rest zs hwaits hperm => ?_
  · have hjk : j ≠ k := fun heq => hnot (heq ▸ hj)
    exact ⟨sheet_openOn_of_lt x (hlt j hj) hjk, sheet_openOn_of_lt x (h.size_eq ▸ hlt j hj) hjk⟩
  · rw [sheet_openOn hk, sheet_openOn hk', h.size_eq, h.other j hj, h.other k hnot]
  · obtain ⟨hnodup, hrest, hall⟩ := rest_spec hperm
    have hmem := hall k hk hnot
    have hopened := hwaits.opened hnodup (fun j hj => (hrest j hj).1) hmem x
    refine ⟨_, [], by rw [append_nil]; exact hopened, ?_⟩
    rw [size_openOn, range_succ]
    refine (((sheets_opened_perm hnodup hmem _ _).append_left f.sheets).cons 0).trans ?_
    rw [← append_assoc]
    exact hperm.append_right [ss.size]

end

theorem openOn_class (x : Heading) : Shadow f ys (ss.openOn 0 x) (ss'.openOn 0 x) := by
  obtain ⟨xs, zs, rest, hinserts, hclass, hsub, hwaits, hperm⟩ := h.class_eq
  obtain ⟨hnodup, hrest, -⟩ := rest_spec hperm
  have hlt : ∀ j ∈ 0 :: f.sheets, j < ss.size := fun j hj => mem_range.mp (hperm.mem_iff.mp
    (mem_append_left rest.sheets hj : j ∈ (0 :: f.sheets) ++ rest.sheets))
  have hpos := hlt 0 mem_cons_self
  have hpos' : 0 < ss'.size := h.size_eq ▸ hpos
  have hfalse : ∀ j ∈ f.sheets, j ≠ 0 := by
    rintro j hj rfl
    exact (nodup_cons.mp (hperm.nodup_iff.mpr nodup_range)).1 (mem_append_left _ hj)
  have hkeep : ∀ j ∈ f.sheets, (ss.openOn 0 x).sheet j = ss.sheet j := fun j hj =>
    sheet_openOn_of_lt x (hlt j (mem_cons_of_mem 0 hj)) (hfalse j hj)
  refine ⟨by rw [size_openOn, size_openOn, h.size_eq], h.waits.congr fun j hj => by rw [hkeep j hj],
    ⟨xs ++ [⟨x.shape, false, some ss.size⟩], zs ++ [⟨x.shape, false, some ss.size⟩], rest.snoc ⟨x.shape, false,
      some ss.size⟩ ss.size, ?_, ?_, hsub.append_right _, ?_, ?_⟩, fun j hj => ?_, fun j hj => ?_⟩
  · rw [sheet_openOn_self x hpos, hinserts]
    simp
  · rw [sheet_openOn_self x hpos', sheet_openOn_self x hpos, hclass, h.size_eq, blocks_congr hkeep]
  · refine (hwaits.congr fun j hj => ?_).snoc rfl (by rw [(holds_openOn x hpos).sheet_eq])
    obtain ⟨hjs, hj0⟩ := hrest j hj
    rw [sheet_openOn_of_lt x hjs (fun heq => hj0 (heq ▸ mem_cons_self))]
  · rw [sheets_snoc, size_openOn, range_succ, ← append_assoc]
    exact hperm.append_right [ss.size]
  · rw [hkeep j hj, sheet_openOn_of_lt x (h.size_eq ▸ hlt j (mem_cons_of_mem 0 hj)) (hfalse j hj), h.cleared j hj]
  · have hj0 : j ≠ 0 := fun heq => hj (heq ▸ mem_cons_self)
    rw [sheet_openOn hpos, sheet_openOn hpos', if_neg hj0, if_neg hj0, h.size_eq, h.other j hj]

theorem settle_class : ss'.settle 0 = ss.settle 0 := by
  obtain ⟨xs, zs, rest, hinserts, hclass, hsub, hwaits, hperm⟩ := h.class_eq
  obtain ⟨-, hrest, -⟩ := rest_spec hperm
  -- what came to wait since the reading
  obtain ⟨g, hg, hsheets⟩ := hwaits.sublist hsub
  have hg' : g.Waits ss' xs := hg.congr fun j hj => by rw [h.other j (hrest j (hsheets.mem hj)).2]
  have hsublist : (0 :: (f.append g).sheets).Sublist (0 :: (f.sheets ++ rest.sheets)) := by
    rw [sheets_append]
    exact (hsheets.append_left f.sheets).cons_cons 0
  have hnodup : (0 :: (f.append g).sheets).Nodup := (hperm.nodup_iff.mpr nodup_range).sublist hsublist
  have hlt : ∀ j ∈ 0 :: (f.append g).sheets, j < ss.size := fun j hj =>
    mem_range.mp (hperm.mem_iff.mp (hsublist.mem hj))
  have hpart : (0 :: g.sheets).Sublist (0 :: (f.append g).sheets) := by
    rw [sheets_append]
    exact (sublist_append_right _ _).cons_cons 0
  obtain ⟨hsize, hself, hcleared, hother⟩ := Forest.settle (hinserts.symm ▸ h.waits.append hg) hnodup hlt
  obtain ⟨hsize', hself', hcleared', hother'⟩ := Forest.settle (by rw [hclass]; exact hg') (hnodup.sublist hpart)
    fun j hj => h.size_eq ▸ hlt j (hpart.mem hj)
  refine ext_sheet (by rw [hsize, hsize', h.size_eq]) fun j _ => ?_
  rw [sheets_append] at hnodup hcleared hother
  by_cases hj0 : j = 0
  · rw [hj0, hself', hself, hclass, blocks_append, ← append_assoc, @blocks_congr ss ss' g]
    exact fun i hi => h.other i (hrest i (hsheets.mem hi)).2
  by_cases hjg : j ∈ g.sheets
  · rw [hcleared' j hjg, hcleared j (mem_append_right _ hjg), h.other j (hrest j (hsheets.mem hjg)).2]
  have hnot : j ∉ 0 :: g.sheets := not_mem_cons_of_ne_of_not_mem hj0 hjg
  by_cases hjf : j ∈ f.sheets
  · rw [hother' j hnot, hcleared j (mem_append_left _ hjf), h.cleared j hjf]
  · rw [hother' j hnot, hother j, h.other j (not_mem_cons_of_ne_of_not_mem hj0 hjf)]
    rw [mem_cons, mem_append, not_or, not_or]
    exact ⟨hj0, hjf, hjg⟩

end Shadow

/-! ### Calls and readings in both runs -/

section

variable (he : (Listener.opens e.verb).isSome = true) (shape : Shape)

include he

theorem Listing.heading_ne_none (indent : Int) : heading shape indent e ≠ .ok none := by
  intro hnone
  cases e <;> first | exact Bool.noConfusion he | skip
  case field name flags type value? =>
    rw [heading] at hnone
    cases hflags : accessText flags <;> rw [hflags] at hnone <;> cases hnone
  case method name flags parameters result =>
    rw [heading] at hnone
    cases hflags : accessText flags <;> rw [hflags] at hnone
    · cases hnone
    · cases htypes : joined "" parameters <;> rw [htypes] at hnone <;> cases hnone
  case innerClass name flags =>
    rw [heading] at hnone
    cases hflags : accessText flags <;> rw [hflags] at hnone <;> cases hnone
  case annot flags type =>
    rw [heading] at hnone
    cases hflags : accessText flags <;> rw [hflags] at hnone <;> cases hnone
  case subAnnot => cases hnone

theorem Sheet.inscribe_of_opens (closing : Keyword) {s' : Sheet} (hindent : s'.indent = s.indent) :
    (∃ f, s.inscribe shape closing e = .error f ∧ s'.inscribe shape closing e = .error f) ∨
      ∃ x, s.inscribe shape closing e = .ok (.opened x) ∧ s'.inscribe shape closing e = .ok (.opened x) := by
  have hne := heading_ne_none he shape s.indent
  have heq : ∀ t : Sheet, t.inscribe shape closing e = t.inscribeText shape e := by
    intro t
    cases e <;> first | rfl | exact Bool.noConfusion he
  rw [heq, heq, inscribeText, inscribeText, hindent]
  rcases hx : heading shape s.indent e with f | _ | x
  · exact .inl ⟨f, rfl, rfl⟩
  · exact absurd hx hne
  · exact .inr ⟨x, rfl, rfl⟩

end

namespace Shadow

variable {f : Forest} {ys : List Insert} {ss' : Sheets} {k : Nat} {w : Workroom}

open Workroom

variable (h : Shadow f ys w.sheets ss')

include h

theorem inscribed (hk : k < w.sheets.size) (hnot : k ∉ 0 :: f.sheets) (shape : Shape) (closing : Keyword) (e : Event) :
    ∃ t, ((w.lay ss').inscribed k ((ss'.sheet k).inscribe shape closing e)).2
        = (w.inscribed k ((w.sheets.sheet k).inscribe shape closing e)).2.lay t ∧
      Shadow f ys (w.inscribed k ((w.sheets.sheet k).inscribe shape closing e)).2.sheets t := by
  rw [h.other k hnot]
  rcases hr : (w.sheets.sheet k).inscribe shape closing e with f | s | x
  · exact ⟨ss', rfl, h⟩
  · exact ⟨_, rfl, h.rewrite hk hnot (inserts_of_inscribe hr)⟩
  · refine ⟨_, ?_, h.openOn hk hnot x⟩
    rw [Workroom.inscribed, Workroom.inscribed, Workroom.lay, Workroom.lay, h.size_eq]

theorem call (htidy : w.Tidy) (hnot : k ∉ 0 :: f.sheets) (e : Event) :
    ∃ t, ((w.lay ss').call k e).2 = (w.call k e).2.lay t ∧ Shadow f ys (w.call k e).2.sheets t := by
  by_cases hk : k < w.sheets.size
  · obtain ⟨shape, closing, hwriter⟩ := htidy.writer k hk
    rw [call_eq hwriter, @call_eq (w.lay ss') shape k closing hwriter]
    split
    · have hready : Shadow f ys (w.readied shape k e) ((w.lay ss').readied shape k e) := by
        unfold readied
        split
        · exact h.settle hk hnot
        · exact h
      have hsize := htidy.size_readied shape hk e
      exact Shadow.inscribed (w := w.lay (w.readied shape k e)) hready (hsize.symm ▸ hk) hnot shape closing e
    · exact ⟨ss', rfl, h⟩
  · have hnone : w.writers[k]? = none := getElem?_eq_none (htidy.length_eq ▸ Nat.le_of_not_lt hk)
    have hnone' : (w.lay ss').writers[k]? = none := hnone
    rw [Workroom.call, hnone', Workroom.call, hnone]
    exact ⟨ss', rfl, h⟩

theorem call_class (htidy : w.Tidy) (he : (Listener.opens e.verb).isSome = true ∨ Shape.classDef.hears e.verb = false) :
    ∃ t, ((w.lay ss').call 0 e).2 = (w.call 0 e).2.lay t ∧ Shadow f ys (w.call 0 e).2.sheets t := by
  rw [call_eq htidy.root, @call_eq (w.lay ss') .classDef 0 .classDef htidy.root]
  split
  · rename_i hears
    have hopens := he.resolve_right (by rw [hears]; exact Bool.noConfusion)
    have hstays : settles .classDef e.verb = false := by
      cases e <;> first | rfl | exact Bool.noConfusion hopens
    have hready : w.readied .classDef 0 e = w.sheets ∧ (w.lay ss').readied .classDef 0 e = ss' := by
      unfold readied
      rw [hstays]
      exact ⟨rfl, rfl⟩
    have hindent : (ss'.sheet 0).indent = (w.sheets.sheet 0).indent := by
      obtain ⟨xs, zs, rest, -, hclass, -⟩ := h.class_eq
      rw [hclass]
    rw [hready.1, hready.2]
    rcases inscribe_of_opens hopens .classDef .classDef hindent with ⟨f, hr, hr'⟩ | ⟨x, hr, hr'⟩
    · rw [hr, hr']
      exact ⟨ss', rfl, h⟩
    · rw [hr, hr']
      refine ⟨_, ?_, h.openOn_class x⟩
      show Workroom.mk _ (_ ++ [Listener.writer x.shape ss'.size x.closing .nobody]) = _
      rw [h.size_eq]
      rfl
  · exact ⟨ss', rfl, h⟩

theorem call_settling (htidy : w.Tidy) (he : settles .classDef e.verb = true) : (w.lay ss').call 0 e = w.call 0 e := by
  have hears : Shape.classDef.hears e.verb = true := by
    cases e <;> first | rfl | exact Bool.noConfusion he
  have hready : (w.lay ss').readied .classDef 0 e = w.readied .classDef 0 e := by
    unfold readied
    rw [he]
    exact h.settle_class
  rw [call_eq htidy.root, @call_eq (w.lay ss') .classDef 0 .classDef htidy.root, if_pos hears, if_pos hears, hready]
  rfl

end Shadow

/-- Steps that do not show whether the class was read before them, with the given sheets: until the class is settled,
they call no construct that waited below it, and the class itself only opens constructs. -/
def Unnoticed (ss : Sheets) : List Step → Prop
  | [] => True
  | .read :: _ => True
  | .call k e :: more =>
    if k = 0 then settles .classDef e.verb = true ∨
      ((Listener.opens e.verb).isSome = true ∨ Shape.classDef.hears e.verb = false) ∧ Unnoticed ss more
    else ¬ ss.Below 0 k ∧ Unnoticed ss more

theorem Shadow.run {f : Forest} {ys : List Insert} {ss ss' : Sheets} {more : List Step}
    (h : Shadow f ys w.sheets ss') (htidy : w.Tidy) (hbelow : ∀ j ∈ f.sheets, ss.Below 0 j)
    (hmore : Unnoticed ss more) : ((w.lay ss').run more).read.1 = (w.run more).read.1 := by
  induction more generalizing w ss' with
  | nil => exact congrArg (fun t => Except.ok (text (Sheets.sheet t 0))) h.settle_class
  | cons step more ih =>
    rw [Workroom.run_cons, Workroom.run_cons]
    cases step with
    | read =>
      have hsame : (w.lay ss').after .read = w.after .read := congrArg w.lay h.settle_class
      rw [hsame]
    | call k e =>
      rw [Workroom.after, Workroom.after]
      rw [Unnoticed] at hmore
      split at hmore
      · rename_i hk
        subst hk
        rcases hmore with hsettles | ⟨he, hmore⟩
        · rw [h.call_settling htidy hsettles]
        · obtain ⟨t, heq, ht⟩ := h.call_class htidy he
          rw [heq]
          exact ih ht (htidy.call 0 e) hmore
      · rename_i hk
        have hnot : k ∉ 0 :: f.sheets := by
          rw [mem_cons, not_or]
          exact ⟨hk, fun hj => hmore.1 (hbelow k hj)⟩
        obtain ⟨t, heq, ht⟩ := h.call htidy hnot e
        rw [heq]
        exact ih ht (htidy.call k e) hmore.2

/-! ### Readings that are noticed -/

/-- The bare lines of some sheets. -/
def Sheets.bareLines (ss : Sheets) (js : List Nat) : List String :=
  js.flatMap fun j => (ss.sheet j).lines.flatMap Text.bareLines

theorem Workroom.bareLines_read (w : Workroom) {f : Forest} (hwaits : f.Waits ss (ss.sheet 0).inserts)
    (hnodup : (0 :: f.sheets).Nodup) (hlt : ∀ j ∈ 0 :: f.sheets, j < ss.size) :
    ∃ code, (w.lay ss).read.1 = .ok code ∧ Text.bareLines code = ss.bareLines (0 :: f.sheets) := by
  obtain ⟨-, hself, -, -⟩ := settle hwaits hnodup hlt
  refine ⟨_, rfl, ?_⟩
  show Text.bareLines ((ss.settle 0).sheet 0).text = _
  rw [hself, text, bareLines_intercalate, flatMap_append, bareLines_blocks, Sheets.bareLines, flatMap_cons]

/-- A call to which a writer of the shape adds one line, without settling its sheet. -/
def Shape.remark : Shape → Event
  | .classDef => .implements (.text "x")
  | _ => .comment (.text "x")

/-- The line that is added. -/
def Shape.remarkLine : Shape → Statement
  | .classDef => ⟨0, ".implements x", ""⟩
  | .method => ⟨1, "# x", ""⟩
  | _ => ⟨0, "# x", ""⟩

theorem Workroom.call_remark {shape : Shape} {k : Nat} {closing : Keyword}
    (hk : w.writers[k]? = some (.writer shape k closing .nobody)) :
    (w.call k shape.remark).2 = w.lay (w.sheets.update k fun _ => (w.sheets.sheet k).put shape.remarkLine) := by
  rw [call_eq hk]
  cases shape <;> rfl

theorem Sheets.length_bareLines_remark {js : List Nat} {j : Nat} (hj : j ∈ js) (hnodup : js.Nodup)
    (hlt : j < ss.size) (shape : Shape) :
    ((ss.update j fun _ => (ss.sheet j).put shape.remarkLine).bareLines js).length = (ss.bareLines js).length + 1 := by
  obtain ⟨before, after, rfl⟩ := append_of_mem hj
  rw [nodup_append, nodup_cons] at hnodup
  obtain ⟨-, ⟨hafter, -⟩, hdisjoint⟩ := hnodup
  have hother : ∀ is : List Nat, j ∉ is →
      (ss.update j fun _ => (ss.sheet j).put shape.remarkLine).bareLines is = ss.bareLines is := by
    intro is his
    refine flatMap_congr fun i hi => ?_
    have hij : i ≠ j := by
      rintro rfl
      exact his hi
    rw [sheet_update_of_ne hij]
  have hline : ∀ steps, (Text.bareLines (margin steps ++ shape.remarkLine.text ++ shape.remarkLine.stop)).length = 1 := by
    intro steps
    rw [String.append_assoc, bareLines_front (Desk.margin_blank steps)]
    cases shape <;> decide
  have hbefore := hother before fun hm => hdisjoint j hm j mem_cons_self rfl
  have hafter' := hother after hafter
  simp only [Sheets.bareLines, flatMap_append, flatMap_cons, length_append] at hbefore hafter' ⊢
  rw [hbefore, hafter', sheet_update_self hlt, put, addAt, flatMap_append, length_append, flatMap_singleton, hline]
  omega

theorem Workroom.read_noticed (h : w.Tidy) (hne : (w.sheets.sheet 0).inserts ≠ []) :
    ∃ more, ((w.after .read).run more).read.1 ≠ (w.run more).read.1 := by
  obtain ⟨f, hwaits, hnodup, hlt⟩ := h.planted.under h.pos
  obtain ⟨hsize, hself, -, -⟩ := settle hwaits hnodup hlt
  cases f with
  | nil => exact absurd hwaits hne
  | cons x j below behind =>
    have hj : j ∈ 0 :: (cons x j below behind).sheets := mem_cons_of_mem 0 mem_cons_self
    have hj0 : 0 ≠ j := by
      rintro rfl
      exact (nodup_cons.mp hnodup).1 mem_cons_self
    have hjs := hlt j hj
    obtain ⟨shape, closing, hwriter⟩ := h.writer j hjs
    refine ⟨[.call j shape.remark], ?_⟩
    rw [run_cons, run_cons, after_call, after_call, after_read, call_remark hwriter,
      @call_remark (w.lay (w.sheets.settle 0)) shape j closing hwriter]
    intro hsame
    -- without the reading, the line becomes part of the code
    have hwaits' : (cons x j below behind).Waits (w.sheets.update j fun _ => (w.sheets.sheet j).put shape.remarkLine)
        ((w.sheets.update j fun _ => (w.sheets.sheet j).put shape.remarkLine).sheet 0).inserts := by
      rw [sheet_update_of_ne hj0]
      refine hwaits.congr fun i hi => ?_
      by_cases hij : i = j
      · rw [hij, sheet_update_self hjs]
        rfl
      · rw [sheet_update_of_ne hij]
    obtain ⟨code, hcode, hlines⟩ := w.bareLines_read hwaits' hnodup fun i hi => by
      rw [size_update]
      exact hlt i hi
    -- with the reading, it stands on a sheet that does not belong to the class
    have hempty : nil.Waits ((w.sheets.settle 0).update j fun _ => ((w.sheets.settle 0).sheet j).put shape.remarkLine)
        (((w.sheets.settle 0).update j fun _ => ((w.sheets.settle 0).sheet j).put shape.remarkLine).sheet 0).inserts := by
      rw [sheet_update_of_ne hj0, hself]
      rfl
    obtain ⟨code', hcode', hlines'⟩ := w.bareLines_read hempty (nodup_singleton 0) fun i hi => by
      rw [size_update, hsize, mem_singleton.mp hi]
      exact h.pos
    have hmore := length_bareLines_remark hj hnodup hjs shape
    have hkept : ((w.sheets.settle 0).update j fun _ => ((w.sheets.settle 0).sheet j).put shape.remarkLine).bareLines [0]
        = w.sheets.bareLines (0 :: (cons x j below behind).sheets) := by
      rw [Sheets.bareLines, flatMap_singleton, sheet_update_of_ne hj0, hself, flatMap_append,
        bareLines_blocks, Sheets.bareLines, flatMap_cons]
    have heq : code' = code := Except.ok.inj (hcode'.symm.trans (hsame.trans hcode))
    rw [← hlines, ← heq, hlines', Forest.sheets, hkept] at hmore
    exact Nat.ne_of_lt (Nat.lt_succ_self _) hmore

namespace Workroom

theorem run_append (w : Workroom) (steps more : List Step) : w.run (steps ++ more) = (w.run steps).run more :=
  foldl_append

/-- A reading in a run is noticed by no continuation exactly if nothing waits below the class at that time; where
something waits, it is not noticed by continuations that leave alone what waited, and let the class only open
constructs, until the class is settled. -/
theorem run_read_eq_iff (indent : Int) (steps : List Step) :
    ((∀ more, ((new indent).run (steps ++ .read :: more)).read.1 = ((new indent).run (steps ++ more)).read.1) ↔
        (((new indent).run steps).sheets.sheet 0).inserts = []) ∧
      ∀ more, Unnoticed ((new indent).run steps).sheets more →
        ((new indent).run (steps ++ .read :: more)).read.1 = ((new indent).run (steps ++ more)).read.1 := by
  have htidy := (tidy_new indent).run steps
  simp only [run_append, run_cons]
  generalize (new indent).run steps = w at htidy
  refine ⟨⟨fun hall => ?_, fun hnone more => ?_⟩, fun more hmore => ?_⟩
  · by_contra hne
    obtain ⟨more, hnoticed⟩ := read_noticed htidy hne
    exact hnoticed (hall more)
  · have hsame : w.after .read = w := by
      rw [after_read, Sheets.settle, settleTo_eq_self _ hnone]
      rfl
    rw [hsame]
  · obtain ⟨f, hwaits, hshadow⟩ := Shadow.of_planted htidy.planted
    exact hshadow.run htidy (hwaits.below fun x hx j hj => .waits hx hj) hmore

/-- A class with a field that is complete. -/
def fieldSteps : List Step :=
  [.call 0 (.classDef (.text "La;") (.int 1)), .call 0 (.field (.text "f") (.int 2) (.text "I") none), .call 1 .close]

/-- A method, a comment of the class, and a late comment of the field. -/
def methodSteps : List Step :=
  [.call 0 (.method (.text "m") (.int 1) (.list []) (.text "V")), .call 2 .close, .call 0 (.comment (.text "c")),
    .call 1 (.comment (.text "d"))]

theorem run_read_fieldSteps : Unnoticed ((new 0).run fieldSteps).sheets methodSteps ∧
    ((new 0).run (fieldSteps ++ .read :: methodSteps)).read.1 = ((new 0).run (fieldSteps ++ methodSteps)).read.1 := by
  have hclass : (((new 0).run fieldSteps).sheets.sheet 0).inserts = [⟨.field, false, some 1⟩] := by decide +kernel
  have hfield : (((new 0).run fieldSteps).sheets.sheet 1).inserts = [] := by decide +kernel
  have hbelow : ∀ j, ((new 0).run fieldSteps).sheets.Below 0 j → j = 1 := by
    intro j hj
    induction hj with
    | waits hx hj =>
      rw [hclass] at hx
      cases mem_singleton.mp hx
      exact (Option.some.inj hj).symm
    | under _ hx _ ih =>
      rw [ih, hfield] at hx
      cases hx
  have hmore : Unnoticed ((new 0).run fieldSteps).sheets methodSteps :=
    .inr ⟨.inl rfl, fun h => absurd (hbelow 2 h) (by decide), .inl rfl⟩
  exact ⟨hmore, (run_read_eq_iff 0 fieldSteps).2 methodSteps hmore⟩

/-- The end of a field that was open when the class was read is lost. -/
theorem read_loses_end :
    ((new 0).run ([.call 0 (.classDef (.text "La;") (.int 1)), .call 0 (.field (.text "f") (.int 2) (.text "I") none)]
        ++ .read :: [.call 1 .close])).read.1 = .ok ".class public La;\n.field private f:I\n" ∧
      ((new 0).run ([.call 0 (.classDef (.text "La;") (.int 1)), .call 0 (.field (.text "f") (.int 2) (.text "I") none)]
        ++ [.call 1 .close])).read.1 = .ok ".class public La;\n.field private f:I\n.end field\n" := by
  decide +kernel

end Workroom

end Dalvik
