import Dalvik.Proofs.Writing

/-!
# Forests of waiting constructs

The constructs that wait on a sheet have sheets of their own, on which others may wait, and so on: together they
are a forest (`Forest`). Settling a sheet turns its forest into lines, each tree as one block, clears the sheets of
the forest, and leaves all other sheets alone (`Forest.settle`). What the blocks are can be read off the sheets
before (`Forest.blocks`).

A change at one sheet of a forest changes the forest below that sheet only (`Forest.graft`). The writers that may
still be called are those on the right edge of a forest (`Forest.edge`); what stands below a sheet on the right edge
is the end of the forest (`Forest.sheets_graft_of_edge`).
-/

namespace Dalvik

open List

/-- Constructs with sheets, each with those that wait on its sheet. -/
inductive Forest where
  | nil
  | cons (x : Insert) (sheet : Nat) (below behind : Forest)

namespace Forest

/-- The sheets of a forest, each in front of those that wait on it. -/
def sheets : Forest → List Nat
  | nil => []
  | cons _ j below behind => j :: (below.sheets ++ behind.sheets)

/-- The constructs of a forest wait, in order. -/
def Waits (ss : Sheets) : Forest → List Insert → Prop
  | nil, xs => xs = []
  | cons x j below behind, xs => ∃ ys, xs = x :: ys ∧ x.sheet? = some j ∧ below.Waits ss (ss.sheet j).inserts ∧
      behind.Waits ss ys

/-- The blocks that the trees of a forest become on a sheet with an indentation. -/
def blocks (ss : Sheets) : Int → Forest → List String
  | _, nil => []
  | indent, cons x j below behind =>
    (Sheet.margin indent ++ "\n".intercalate ((ss.sheet j).lines ++ below.blocks ss (ss.sheet j).indent)
      ++ Sheets.blockStop x) :: behind.blocks ss indent

variable {ss ss' : Sheets} {f g : Forest} {xs : List Insert} {i k : Nat}

/-! ### Frames -/

theorem Waits.congr (h : f.Waits ss xs) (hsame : ∀ j ∈ f.sheets, (ss'.sheet j).inserts = (ss.sheet j).inserts) :
    f.Waits ss' xs := by
  induction f generalizing xs with
  | nil => exact h
  | cons x j below behind ihbelow ihbehind =>
    obtain ⟨ys, rfl, hx, hbelow, hbehind⟩ := h
    simp only [sheets, mem_cons, mem_append] at hsame
    refine ⟨ys, rfl, hx, ?_, ihbehind hbehind fun m hm => hsame m (.inr (.inr hm))⟩
    rw [hsame j (.inl rfl)]
    exact ihbelow hbelow fun m hm => hsame m (.inr (.inl hm))

theorem blocks_congr (hsame : ∀ j ∈ f.sheets, ss'.sheet j = ss.sheet j) (indent : Int) :
    f.blocks ss' indent = f.blocks ss indent := by
  induction f generalizing indent with
  | nil => rfl
  | cons x j below behind ihbelow ihbehind =>
    simp only [sheets, mem_cons, mem_append] at hsame
    rw [blocks, blocks, hsame j (.inl rfl), ihbelow fun m hm => hsame m (.inr (.inl hm)),
      ihbehind fun m hm => hsame m (.inr (.inr hm))]

/-! ### Settling -/

open Sheets

theorem foldl_absorb (f : Forest) {n : Nat} (hwaits : f.Waits ss xs) (hnodup : (i :: f.sheets).Nodup)
    (hlt : ∀ j ∈ i :: f.sheets, j < ss.size) (hn : f.sheets.length ≤ n) :
    (xs.foldl (absorb n i) ss).size = ss.size ∧ (xs.foldl (absorb n i) ss).sheet i = { ss.sheet i with
        lines := (ss.sheet i).lines ++ f.blocks ss (ss.sheet i).indent } ∧
      (∀ j ∈ f.sheets, (xs.foldl (absorb n i) ss).sheet j = (ss.sheet j).clear) ∧
      ∀ j, j ∉ i :: f.sheets → (xs.foldl (absorb n i) ss).sheet j = ss.sheet j := by
  induction f generalizing ss i n xs with
  | nil =>
    obtain rfl : xs = [] := hwaits
    exact ⟨rfl, by simp [blocks], by simp [sheets], fun _ _ => rfl⟩
  | cons x j below behind ihbelow ihbehind =>
    obtain ⟨ys, rfl, hx, hbelow, hbehind⟩ := hwaits
    simp only [sheets, nodup_cons, mem_cons, mem_append, not_or, nodup_append] at hnodup
    obtain ⟨⟨hij, hibelow, hibehind⟩, ⟨hjbelow, hjbehind⟩, hnbelow, hnbehind, hdisjoint⟩ := hnodup
    simp only [sheets, mem_cons, mem_append] at hlt
    obtain ⟨m, rfl⟩ : ∃ m, n = m + 1 := Nat.exists_eq_succ_of_ne_zero (by simp [sheets] at hn; omega)
    simp only [sheets, length_cons, length_append] at hn
    have hi := hlt i (.inl rfl)
    have hj := hlt j (.inr (.inl rfl))
    -- the sheet of the first construct is settled
    obtain ⟨hsize, hself, hcleared, hother⟩ := ihbelow (n := m) hbelow (nodup_cons.mpr ⟨hjbelow, hnbelow⟩)
      (fun k hk => by
        rcases mem_cons.mp hk with rfl | hk
        · exact hj
        · exact hlt k (.inr (.inr (.inl hk)))) (by omega)
    have hsettle := settleTo_succ m j ss
    generalize (ss.sheet j).inserts.foldl (absorb m j) ss = t at hsize hself hcleared hother hsettle
    have hsettled : (settleTo (m + 1) j ss).sheet j = ⟨(ss.sheet j).indent,
        (ss.sheet j).lines ++ below.blocks ss (ss.sheet j).indent, []⟩ := by
      rw [hsettle, sheet_update_self (by rw [hsize]; exact hj), hself]
    have hsettledOther : ∀ k, k ≠ j → (settleTo (m + 1) j ss).sheet k = t.sheet k := by
      intro k hk
      rw [hsettle, sheet_update_of_ne hk]
    -- and becomes a block
    have habsorb : absorb (m + 1) i ss x = ((settleTo (m + 1) j ss).update i fun s =>
        s.addAt s.indent ((settleTo (m + 1) j ss).sheet j).text (blockStop x)).update j Sheet.clear := by
      rw [absorb, hx]
    have hsize' : (absorb (m + 1) i ss x).size = ss.size := by
      rw [habsorb, size_update, size_update, hsettle, size_update, hsize]
    have hself' : (absorb (m + 1) i ss x).sheet i = { ss.sheet i with
        lines := (ss.sheet i).lines ++ [Sheet.margin (ss.sheet i).indent ++ "\n".intercalate ((ss.sheet j).lines
          ++ below.blocks ss (ss.sheet j).indent) ++ blockStop x] } := by
      rw [habsorb, sheet_update_of_ne hij, sheet_update_self (by rw [hsettle, size_update, hsize]; exact hi),
        hsettledOther i hij, hother i (by simp [hij, hibelow]), hsettled]
      rfl
    have hcleared' : ∀ k, k = j ∨ k ∈ below.sheets → (absorb (m + 1) i ss x).sheet k = (ss.sheet k).clear := by
      rintro k (rfl | hk)
      · rw [habsorb, sheet_update_self (by rw [size_update, hsettle, size_update, hsize]; exact hj),
          sheet_update_of_ne (Ne.symm hij), hsettled]
        rfl
      · have hkj : k ≠ j := fun h => hjbelow (h ▸ hk)
        have hki : k ≠ i := fun h => hibelow (h ▸ hk)
        rw [habsorb, sheet_update_of_ne hkj, sheet_update_of_ne hki, hsettledOther k hkj, hcleared k hk]
    have hother' : ∀ k, k ≠ i → k ≠ j → k ∉ below.sheets → (absorb (m + 1) i ss x).sheet k = ss.sheet k := by
      intro k hki hkj hk
      rw [habsorb, sheet_update_of_ne hkj, sheet_update_of_ne hki, hsettledOther k hkj, hother k (by simp [hkj, hk])]
    -- the constructs behind it are not touched
    have hsame : ∀ k ∈ behind.sheets, (absorb (m + 1) i ss x).sheet k = ss.sheet k := fun k hk =>
      hother' k (fun h => hibehind (h ▸ hk)) (fun h => hjbehind (h ▸ hk)) fun hk' => hdisjoint k hk' k hk rfl
    obtain ⟨hsize'', hself'', hcleared'', hother''⟩ := ihbehind (n := m + 1)
      (hbehind.congr fun k hk => by rw [hsame k hk])
      (nodup_cons.mpr ⟨hibehind, hnbehind⟩)
      (fun k hk => by
        rw [hsize']
        rcases mem_cons.mp hk with rfl | hk
        · exact hi
        · exact hlt k (.inr (.inr (.inr hk)))) (by omega)
    refine ⟨hsize''.trans hsize', ?_, fun k hk => ?_, fun k hk => ?_⟩
    · rw [foldl_cons, hself'', hself', blocks_congr hsame, blocks]
      simp
    · rw [foldl_cons]
      rcases mem_cons.mp hk with rfl | hk
      · rw [hother'' _ (by simp [Ne.symm hij, hjbehind]), hcleared' _ (.inl rfl)]
      · rcases mem_append.mp hk with hk | hk
        · rw [hother'' k (by
            rw [mem_cons, not_or]
            exact ⟨fun h => hibelow (h ▸ hk), fun h => hdisjoint k hk k h rfl⟩), hcleared' k (.inr hk)]
        · rw [hcleared'' k hk, hsame k hk]
    · simp only [sheets, mem_cons, mem_append, not_or] at hk
      rw [foldl_cons, hother'' k (by simp [hk.1, hk.2.2.2]), hother' k hk.1 hk.2.1 hk.2.2.1]

theorem length_le_of_nodup {l : List Nat} {n : Nat} (hnodup : l.Nodup) (hlt : ∀ j ∈ l, j < n) : l.length ≤ n := by
  have h := (hnodup.subperm fun j hj => mem_range.mpr (hlt j hj)).length_le
  rwa [length_range] at h

theorem settle (hwaits : f.Waits ss (ss.sheet i).inserts) (hnodup : (i :: f.sheets).Nodup)
    (hlt : ∀ j ∈ i :: f.sheets, j < ss.size) :
    (ss.settle i).size = ss.size ∧
      (ss.settle i).sheet i = ⟨(ss.sheet i).indent, (ss.sheet i).lines ++ f.blocks ss (ss.sheet i).indent, []⟩ ∧
      (∀ j ∈ f.sheets, (ss.settle i).sheet j = (ss.sheet j).clear) ∧
      ∀ j, j ∉ i :: f.sheets → (ss.settle i).sheet j = ss.sheet j := by
  have hlength := length_le_of_nodup hnodup hlt
  rw [length_cons] at hlength
  obtain ⟨hsize, hself, hcleared, hother⟩ := f.foldl_absorb hwaits hnodup hlt (n := ss.size) (by omega)
  have hsettle : ss.settle i = _ := settleTo_succ ss.size i ss
  have hi := hlt i mem_cons_self
  refine ⟨by rw [hsettle, size_update, hsize], ?_, fun j hj => ?_, fun j hj => ?_⟩
  · rw [hsettle, sheet_update_self (by rw [hsize]; exact hi), hself]
  · have hji : j ≠ i := by
      rintro rfl
      exact (nodup_cons.mp hnodup).1 hj
    rw [hsettle, sheet_update_of_ne hji, hcleared j hj]
  · rw [hsettle, sheet_update_of_ne (ne_of_not_mem_cons hj), hother j hj]

/-! ### Changes at one sheet -/

/-- The forest below a sheet. -/
def under (k : Nat) : Forest → Forest
  | nil => nil
  | cons _ j below behind =>
    if j = k then below else if k ∈ below.sheets then below.under k else behind.under k

/-- The forest with another one below a sheet. -/
def graft (f : Forest) (k : Nat) (g : Forest) : Forest :=
  match f with
  | nil => nil
  | cons x j below behind => if j = k then cons x j g behind else cons x j (below.graft k g) (behind.graft k g)

theorem graft_of_notMem (h : k ∉ f.sheets) (g : Forest) : f.graft k g = f := by
  induction f with
  | nil => rfl
  | cons x j below behind ihbelow ihbehind =>
    simp only [sheets, mem_cons, mem_append, not_or] at h
    rw [graft, if_neg (Ne.symm h.1), ihbelow h.2.1, ihbehind h.2.2]

theorem head?_sheets_graft (f : Forest) (k : Nat) (g : Forest) : (f.graft k g).sheets.head? = f.sheets.head? := by
  cases f with
  | nil => rfl
  | cons x j below behind =>
    rw [graft]
    split <;> rfl

theorem sheets_under_sublist (f : Forest) (k : Nat) : (f.under k).sheets.Sublist f.sheets := by
  induction f with
  | nil => exact Sublist.refl _
  | cons x j below behind ihbelow ihbehind =>
    rw [under]
    split
    · exact (sublist_append_left _ _).cons j
    · split
      · exact (ihbelow.trans (sublist_append_left _ _)).cons j
      · exact (ihbehind.trans (sublist_append_right _ _)).cons j

theorem Waits.under (h : f.Waits ss xs) (hk : k ∈ f.sheets) : (f.under k).Waits ss (ss.sheet k).inserts := by
  induction f generalizing xs with
  | nil => cases hk
  | cons x j below behind ihbelow ihbehind =>
    obtain ⟨ys, rfl, -, hbelow, hbehind⟩ := h
    rw [Forest.under]
    split
    · rename_i hjk
      exact hjk ▸ hbelow
    · rename_i hjk
      split
      · exact ihbelow hbelow ‹_›
      · rename_i hkbelow
        simp only [sheets, mem_cons, mem_append, hkbelow, false_or] at hk
        exact ihbehind hbehind (hk.resolve_left (Ne.symm hjk))

theorem Waits.graft (h : f.Waits ss xs) (hnodup : f.sheets.Nodup) (hg : g.Waits ss' (ss'.sheet k).inserts)
    (hother : ∀ j ∈ f.sheets, j ≠ k → j ∉ (f.under k).sheets → (ss'.sheet j).inserts = (ss.sheet j).inserts) :
    (f.graft k g).Waits ss' xs := by
  induction f generalizing xs with
  | nil => exact h
  | cons x j below behind ihbelow ihbehind =>
    obtain ⟨ys, rfl, hx, hbelow, hbehind⟩ := h
    simp only [sheets, nodup_cons, mem_append, not_or, nodup_append] at hnodup
    obtain ⟨⟨hjbelow, hjbehind⟩, hnbelow, hnbehind, hdisjoint⟩ := hnodup
    simp only [sheets, mem_cons, mem_append] at hother
    rw [Forest.under] at hother
    rw [Forest.graft]
    split
    · rename_i hjk
      subst hjk
      rw [if_pos rfl] at hother
      refine ⟨ys, rfl, hx, hg, hbehind.congr fun m hm => hother m (.inr (.inr hm)) ?_ ?_⟩
      · rintro rfl
        exact hjbehind hm
      · exact fun hm' => hdisjoint m hm' m hm rfl
    · rename_i hjk
      rw [if_neg hjk] at hother
      by_cases hkbelow : k ∈ below.sheets
      · rw [if_pos hkbelow] at hother
        have hsub : ∀ m ∈ (below.under k).sheets, m ∈ below.sheets := fun m hm => (below.sheets_under_sublist k).mem hm
        have hkbehind : k ∉ behind.sheets := fun h => hdisjoint k hkbelow k h rfl
        refine ⟨ys, rfl, hx, ?_, ?_⟩
        · rw [hother j (.inl rfl) hjk fun hm => hjbelow (hsub j hm)]
          exact ihbelow hbelow hnbelow fun m hm => hother m (.inr (.inl hm))
        · rw [graft_of_notMem hkbehind]
          exact hbehind.congr fun m hm => hother m (.inr (.inr hm)) (fun h => hkbehind (h ▸ hm))
            fun hm' => hdisjoint m (hsub m hm') m hm rfl
      · rw [if_neg hkbelow] at hother
        have hsub : ∀ m ∈ (behind.under k).sheets, m ∈ behind.sheets :=
          fun m hm => (behind.sheets_under_sublist k).mem hm
        refine ⟨ys, rfl, hx, ?_, ihbehind hbehind hnbehind fun m hm => hother m (.inr (.inr hm))⟩
        rw [hother j (.inl rfl) hjk fun hm => hjbehind (hsub j hm), graft_of_notMem hkbelow]
        exact hbelow.congr fun m hm => hother m (.inr (.inl hm)) (fun h => hkbelow (h ▸ hm))
          fun hm' => hdisjoint m hm m (hsub m hm') rfl

/-- One forest behind another. -/
def append : Forest → Forest → Forest
  | nil, g => g
  | cons x j below behind, g => cons x j below (behind.append g)

/-- A construct behind the others, on which nothing waits. -/
def snoc (f : Forest) (x : Insert) (m : Nat) : Forest :=
  f.append (cons x m nil nil)

theorem sheets_append (f g : Forest) : (f.append g).sheets = f.sheets ++ g.sheets := by
  induction f with
  | nil => rfl
  | cons x j below behind _ ihbehind => simp [append, sheets, ihbehind]

theorem blocks_append (ss : Sheets) (indent : Int) (f g : Forest) :
    (f.append g).blocks ss indent = f.blocks ss indent ++ g.blocks ss indent := by
  induction f with
  | nil => rfl
  | cons x j below behind _ ihbehind => simp [append, blocks, ihbehind]

theorem sheets_snoc (f : Forest) (x : Insert) (m : Nat) : (f.snoc x m).sheets = f.sheets ++ [m] :=
  sheets_append f (cons x m nil nil)

theorem Waits.append {ys : List Insert} (hf : f.Waits ss xs) (hg : g.Waits ss ys) :
    (f.append g).Waits ss (xs ++ ys) := by
  induction f generalizing xs with
  | nil =>
    obtain rfl : xs = [] := hf
    exact hg
  | cons x j below behind _ ihbehind =>
    obtain ⟨zs, rfl, hx, hbelow, hbehind⟩ := hf
    exact ⟨zs ++ ys, rfl, hx, hbelow, ihbehind hbehind⟩

theorem Waits.snoc (h : f.Waits ss xs) {x : Insert} {m : Nat} (hx : x.sheet? = some m)
    (hempty : (ss.sheet m).inserts = []) : (f.snoc x m).Waits ss (xs ++ [x]) :=
  h.append ⟨[], rfl, hx, hempty, rfl⟩

/-- Constructs on which nothing waits. -/
def singles : List Nat → Forest
  | [] => nil
  | j :: js => cons ⟨.classDef, false, some j⟩ j nil (singles js)

theorem sheets_singles (js : List Nat) : (singles js).sheets = js := by
  induction js with
  | nil => rfl
  | cons j js ih => simp [singles, sheets, ih]

theorem waits_singles {js : List Nat} (hempty : ∀ j ∈ js, (ss.sheet j).inserts = []) :
    (singles js).Waits ss (js.map fun j => ⟨.classDef, false, some j⟩) := by
  induction js with
  | nil => rfl
  | cons j js ih =>
    exact ⟨_, rfl, rfl, hempty j mem_cons_self, ih fun i hi => hempty i (mem_cons_of_mem j hi)⟩

/-! ### The right edge -/

/-- The last construct, the last of those that wait on it, and so on. -/
def edge : Forest → List Nat
  | nil => []
  | cons _ j below nil => j :: below.edge
  | cons _ _ _ (cons y j below behind) => (cons y j below behind).edge

theorem edge_snoc (f : Forest) (x : Insert) (m : Nat) : (f.snoc x m).edge = [m] := by
  induction f with
  | nil => rfl
  | cons y j below behind _ ihbehind =>
    cases behind with
    | nil => rfl
    | cons z i below' behind' => exact ihbehind

theorem mem_edge_cons {x : Insert} {j : Nat} {below behind : Forest} :
    k ∈ (cons x j below behind).edge ↔ (behind = nil ∧ (k = j ∨ k ∈ below.edge)) ∨ k ∈ behind.edge := by
  cases behind <;> simp [edge]

theorem mem_sheets_of_mem_edge (hk : k ∈ f.edge) : k ∈ f.sheets := by
  fun_induction edge f with
  | case1 => exact hk
  | case2 _ j below ihbelow =>
    rcases mem_cons.mp hk with rfl | hk
    · exact mem_cons_self
    · exact mem_cons_of_mem _ (mem_append_left _ (ihbelow hk))
  | case3 _ j below y i below' behind' ihbehind =>
    exact mem_cons_of_mem _ (mem_append_right _ (ihbehind hk))

section

variable (hnodup : f.sheets.Nodup)

include hnodup

section

variable (hk : k ∈ f.sheets)

include hk

/-- The sheets below a sheet follow it, and a graft puts others in their place; below a sheet on the right edge is
the end of the forest. -/
theorem sheets_split : ∃ before after,
    f.sheets = before ++ k :: ((f.under k).sheets ++ after) ∧
      (∀ g, (f.graft k g).sheets = before ++ k :: (g.sheets ++ after)) ∧ (k ∈ f.edge → after = []) := by
  induction f with
  | nil => cases hk
  | cons x j below behind ihbelow ihbehind =>
    simp only [sheets, nodup_cons, mem_append, not_or, nodup_append] at hnodup
    obtain ⟨⟨hjbelow, hjbehind⟩, hnbelow, hnbehind, hdisjoint⟩ := hnodup
    by_cases hjk : j = k
    · subst hjk
      refine ⟨[], behind.sheets, by simp [under, sheets], fun g => by simp [graft, sheets], fun hedge => ?_⟩
      rcases mem_edge_cons.mp hedge with ⟨rfl, -⟩ | hedge
      · rfl
      · exact absurd (mem_sheets_of_mem_edge hedge) hjbehind
    · simp only [sheets, mem_cons, mem_append, Ne.symm hjk, false_or] at hk
      by_cases hkbelow : k ∈ below.sheets
      · obtain ⟨before, after, hsheets, hgraft, hend⟩ := ihbelow hnbelow hkbelow
        have hkbehind : k ∉ behind.sheets := fun h => hdisjoint k hkbelow k h rfl
        refine ⟨j :: before, after ++ behind.sheets, ?_, fun g => ?_, fun hedge => ?_⟩
        · rw [under, if_neg hjk, sheets, hsheets]
          simp
        · rw [graft, if_neg hjk, graft_of_notMem hkbehind, sheets, hgraft]
          simp
        · rcases mem_edge_cons.mp hedge with ⟨rfl, hlast⟩ | hlast
          · rw [hend (hlast.resolve_left (Ne.symm hjk))]
            rfl
          · exact absurd (mem_sheets_of_mem_edge hlast) hkbehind
      · obtain ⟨before, after, hsheets, hgraft, hend⟩ := ihbehind hnbehind (hk.resolve_left hkbelow)
        refine ⟨j :: (below.sheets ++ before), after, ?_, fun g => ?_, fun hedge => ?_⟩
        · rw [under, if_neg hjk, if_neg hkbelow, sheets, hsheets]
          simp
        · rw [graft, if_neg hjk, graft_of_notMem hkbelow, sheets, hgraft]
          simp
        · rcases mem_edge_cons.mp hedge with ⟨-, hedge⟩ | hedge
          · exact absurd (mem_sheets_of_mem_edge (hedge.resolve_left (Ne.symm hjk))) hkbelow
          · exact hend hedge

theorem sheets_detached_perm : ((f.graft k nil).append (singles (f.under k).sheets)).sheets.Perm f.sheets := by
  obtain ⟨before, after, hsheets, hgraft, -⟩ := sheets_split hnodup hk
  rw [sheets_append, sheets_singles, hgraft, hsheets, append_assoc]
  exact .append_left before (.cons k perm_append_comm)

theorem sheets_opened_perm (x : Insert) (m : Nat) :
    (f.graft k ((f.under k).snoc x m)).sheets.Perm (f.sheets ++ [m]) := by
  obtain ⟨before, after, hsheets, hgraft, -⟩ := sheets_split hnodup hk
  rw [hgraft, hsheets, sheets_snoc]
  simp only [append_assoc, cons_append, nil_append]
  exact .append_left before (.cons k (.append_left _ (perm_append_singleton _ _).symm))

theorem nodup_under : (k :: (f.under k).sheets).Nodup := by
  obtain ⟨before, after, hsheets, -⟩ := sheets_split hnodup hk
  rw [hsheets] at hnodup
  exact hnodup.sublist ((sublist_append_left (k :: (f.under k).sheets) after).trans (sublist_append_right before _))

end

theorem edge_graft {upper lower : List Nat} (hedge : f.edge = upper ++ k :: lower)
    (g : Forest) : (f.graft k g).edge = upper ++ k :: g.edge := by
  fun_induction edge f generalizing upper with
  | case1 => simp at hedge
  | case2 x j below ihbelow =>
    simp only [sheets, nodup_cons, append_nil] at hnodup
    cases upper with
    | nil =>
      obtain ⟨rfl, -⟩ := List.cons.inj hedge
      simp [graft, edge]
    | cons i upper =>
      obtain ⟨rfl, hbelow⟩ := List.cons.inj hedge
      have hjk : j ≠ k := by
        rintro rfl
        exact hnodup.1 (mem_sheets_of_mem_edge (by rw [hbelow]; simp))
      rw [graft, if_neg hjk, graft, edge, ihbelow hnodup.2 hbelow]
      rfl
  | case3 x j below y i below' behind' ihbehind =>
    have hkbehind : k ∈ (cons y i below' behind').sheets := mem_sheets_of_mem_edge (by rw [hedge]; simp)
    rw [sheets, nodup_cons, mem_append, not_or, nodup_append] at hnodup
    obtain ⟨⟨-, hjbehind⟩, -, hnbehind, -⟩ := hnodup
    have hjk : j ≠ k := by
      rintro rfl
      exact hjbehind hkbehind
    rw [graft, if_neg hjk, ← ihbehind hnbehind hedge, graft]
    split
    · rfl
    · rfl

/-! ### Settling and opening inside a forest -/

end

section Inside

variable (h : f.Waits ss xs) (hnodup : f.sheets.Nodup) (hlt : ∀ j ∈ f.sheets, j < ss.size) (hk : k ∈ f.sheets)

include h hnodup hlt hk

theorem settle_under : (ss.settle k).size = ss.size ∧ (ss.settle k).sheet k
      = ⟨(ss.sheet k).indent, (ss.sheet k).lines ++ (f.under k).blocks ss (ss.sheet k).indent, []⟩ ∧
    (∀ j ∈ (f.under k).sheets, (ss.settle k).sheet j = (ss.sheet j).clear) ∧
    ∀ j, j ∉ k :: (f.under k).sheets → (ss.settle k).sheet j = ss.sheet j := by
  refine settle (h.under hk) (nodup_under hnodup hk) fun j hj => ?_
  rcases mem_cons.mp hj with rfl | hj
  · exact hlt j hk
  · exact hlt j ((f.sheets_under_sublist k).mem hj)

theorem Waits.settled : (f.graft k nil).Waits (ss.settle k) xs := by
  obtain ⟨-, hself, -, hother⟩ := settle_under h hnodup hlt hk
  refine h.graft hnodup (by rw [hself]; rfl) fun j _ hjk hj => ?_
  rw [hother j (not_mem_cons_of_ne_of_not_mem hjk hj)]

theorem Waits.detached : ((f.graft k nil).append (singles (f.under k).sheets)).Waits (ss.settle k)
    (xs ++ (f.under k).sheets.map fun j => ⟨.classDef, false, some j⟩) := by
  obtain ⟨-, -, hcleared, -⟩ := settle_under h hnodup hlt hk
  refine (h.settled hnodup hlt hk).append (waits_singles fun j hj => ?_)
  rw [hcleared j hj]
  rfl

theorem Waits.opened (x : Listing.Heading) :
    (f.graft k ((f.under k).snoc ⟨x.shape, false, some ss.size⟩ ss.size)).Waits (ss.openOn k x) xs := by
  have hks := hlt k hk
  have hself := sheet_openOn_self x hks
  have hother : ∀ j ∈ f.sheets, j ≠ k → ((ss.openOn k x).sheet j).inserts = (ss.sheet j).inserts := by
    intro j hj hjk
    rw [sheet_openOn_of_lt x (hlt j hj) hjk]
  have hbelow : (f.under k).Waits (ss.openOn k x) (ss.sheet k).inserts := by
    refine (h.under hk).congr fun j hj => hother j ((f.sheets_under_sublist k).mem hj) ?_
    rintro rfl
    exact (nodup_cons.mp (nodup_under hnodup hk)).1 hj
  refine h.graft hnodup ?_ fun j hj hjk _ => hother j hj hjk
  rw [hself]
  exact hbelow.snoc rfl ((holds_openOn x hks).settled rfl)

end Inside

end Forest

end Dalvik
