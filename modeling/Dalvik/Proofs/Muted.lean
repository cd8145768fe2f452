import Dalvik.Proofs.Effects
import Dalvik.Proofs.Payloads
import Dalvik.Proofs.Remarks

/-!
# Lines that nobody listens to

Inside a construct that was declined a blank stands for the node that is not there. Its lines are kept by the host
(`Reader.Keeps`), each together with the construct that it was met in, and no event is delivered: the world changes by
the lines that are kept and by nothing else. Comments on lines of their own are passed over. What is said here of a
single line, of the rows of a payload and of the items of a list is put together in `Reader.Crosses`: reading goes on
behind some lines as if it had started there.
-/

namespace Dalvik

open Dalvik.Text Line List

namespace Reader

open Read

variable {ν σ : Type} {r : Reader ν σ} (keep : String → Slot ν → σ → σ) (slot : Slot ν)

/-- The lines that nobody listens to are kept: the host changes its world, and never fails. -/
def Keeps (r : Reader ν σ) (keep : String → Slot ν → σ → σ) : Prop :=
  ∃ copy, r.host.copy? = some copy ∧
    ∀ line slot s, outcome (copy line slot) s = (.ok (), { s with world := keep line slot s.world })

/-- Lines are kept one after another, each with the construct that it was met in. -/
def keepAll (keep : String → Slot ν → σ → σ) (cs : List (String × Slot ν)) (w : σ) : σ :=
  cs.foldl (fun w c => keep c.1 c.2 w) w

theorem keepAll_cons (line : String) (slot : Slot ν) (cs : List (String × Slot ν))
    (w : σ) : keepAll keep ((line, slot) :: cs) w = keepAll keep cs (keep line slot w) :=
  rfl

theorem keepAll_append (cs cs' : List (String × Slot ν)) (w : σ) :
    keepAll keep (cs ++ cs') w = keepAll keep cs' (keepAll keep cs w) :=
  foldl_append

/-- What is kept of lines: all but the comments. -/
def keptLines (slot : Slot ν) (ls : List String) : List (String × Slot ν) :=
  (ls.filter fun l => !isRemark l).map fun l => ((ofText l).raw, slot)

theorem keptLines_remark {l : String} (hl : isRemark l = true) (ls : List String) :
    keptLines slot (l :: ls) = keptLines slot ls := by
  simp [keptLines, hl]

theorem keptLines_plain {l : String} (hl : IsPlain l) (ls : List String) :
    keptLines slot (l :: ls) = ((ofText l).raw, slot) :: keptLines slot ls := by
  simp [keptLines, hl.not_remark]

/-! ### Steps -/

section Steps

variable {keep : String → Slot ν → σ → σ} {shape : Shape} (l : Line) (ws : List String) (src : Source)
  (st : Slots ν) (w : σ)

theorem Keeps.outcome_copyLine (h : r.Keeps keep) (slot : Slot ν) :
    outcome r.copyLine ⟨src, ⟨some l, ws⟩, slot :: st, w⟩
      = (.ok (), ⟨src, ⟨some l, ws⟩, slot :: st, keep l.raw slot w⟩) := by
  obtain ⟨copy, hcopy, hkeep⟩ := h
  rw [copyLine, hcopy]
  apply hkeep

theorem outcome_sendTo_blank {e : Event} (he : shape.hears e.verb = true) (s : Session ν σ) :
    outcome (r.sendTo (.blank shape) e) s = (.ok none, s) := by
  simp [sendTo, require, hears, he]

theorem outcome_publishComment_blank : outcome r.publishComment ⟨src, ⟨some l, ws⟩, .blank shape :: st, w⟩
      = (.ok (), ⟨src, ⟨some l, ws⟩, .blank shape :: st, w⟩) := by
  rw [publishComment, bind_ok _ (outcome_currentLine ..)]
  cases l.comment? with
  | none => rfl
  | some c =>
    rw [bind_ok _ (outcome_top ..)]
    simp only [Slot.isAbsent, Bool.false_eq_true, if_false]
    rfl

theorem outcome_remark_blank :
    outcome r.remark ⟨src, ⟨some l, ws⟩, .blank shape :: st, w⟩
      = (.ok (), ⟨src, ⟨some l, ws⟩, .blank shape :: st, w⟩) := by
  rw [remark, bind_ok _ (outcome_top ..)]
  by_cases hcomments : r.options.comments = true
  · simp only [hcomments, if_true, Slot.isAbsent, Bool.false_eq_true, if_false]
    rfl
  · simp only [hcomments, Bool.false_eq_true, if_false]
    rfl

theorem Keeps.outcome_openWith (h : r.Keeps keep) : outcome (r.openWith (.blank shape) false) ⟨src, ⟨some l, ws⟩, st, w⟩
      = (.ok (), ⟨src, ⟨some l, ws⟩, .blank shape :: st, keep l.raw (.blank shape) w⟩) := by
  rw [openWith, bind_ok _ (outcome_push ..), bind_ok _ (outcome_publishComment_blank ..),
    if_neg (by decide), h.outcome_copyLine]

theorem checkDescriptor_eq {type : String} (htype : Descriptor.isDescriptor type = true) :
    r.checkDescriptor type = pure () := by
  simp [checkDescriptor, htype]

end Steps

section Lines

variable {keep : String → Slot ν → σ → σ} {shape : Shape} {text : String} (rest : Lines) (k : Cursor)
  (st : Slots ν) (w : σ)

theorem outcome_nextLine_plain (h : IsPlain text) : outcome r.nextLine ⟨⟨some text :: rest⟩, k, st, w⟩
      = (.ok (), ⟨⟨rest⟩, ⟨some (ofText text), (ofText text).words⟩, st, w⟩) :=
  r.outcome_nextLine h.not_remark h.ne_empty (Desk.ofString_ofText text) rest k st w

theorem outcome_nextLine_muted (hremark : isRemark text = true) :
    outcome r.nextLine ⟨⟨some text :: rest⟩, k, .blank shape :: st, w⟩
      = outcome r.nextLine ⟨⟨rest⟩, ⟨some (ofText text), (ofText text).words⟩, .blank shape :: st, w⟩ := by
  have hne : text ≠ "" := by
    rintro rfl
    cases hremark
  have hreset : k.reset text = .ok ⟨some (ofText text), (ofText text).words⟩ := by
    simp [Cursor.reset, hne, Desk.ofString_ofText, Except.map]
  have hadvance := outcome_advance_some text rest k (.blank shape :: st) w
  rw [hreset] at hadvance
  rw [nextLine, outcome_bind, outcome_bind, outcome_get, outcome_get]
  dsimp only [length_cons]
  rw [nextLineWithin, bind_ok _ hadvance]
  simp only [hremark, if_true]
  rw [bind_ok _ (outcome_remark_blank ..)]

theorem outcome_readLine_muted (hremark : isRemark text = true) :
    outcome r.readLine ⟨⟨some text :: rest⟩, k, .blank shape :: st, w⟩
      = outcome r.readLine ⟨⟨rest⟩, ⟨some (ofText text), (ofText text).words⟩, .blank shape :: st, w⟩ := by
  rw [readLine, outcome_bind, outcome_bind, outcome_nextLine_muted rest k st w hremark]

theorem Keeps.outcome_readLine_blank (h : r.Keeps keep) (slot : Slot ν) (hplain : IsPlain text)
    (hblank : (ofText text).cleaned = "") :
    outcome r.readLine ⟨⟨some text :: rest⟩, k, slot :: st, w⟩
      = (.ok (), ⟨⟨rest⟩, ⟨some (ofText text), (ofText text).words⟩, slot :: st, keep (ofText text).raw slot w⟩) := by
  rw [readLine, bind_ok _ (outcome_nextLine_plain rest k _ w hplain), bind_ok _ (outcome_currentLine ..), hblank]
  exact h.outcome_copyLine _ _ _ _ _ _

theorem outcome_readLine_words {v : String} {vs : List String} {c : Char} (hplain : IsPlain text)
    (hwords : (ofText text).words = v :: vs) (hv : v.toList.head? = some c) :
    outcome r.readLine ⟨⟨some text :: rest⟩, k, st, w⟩
      = outcome r.statement ⟨⟨rest⟩, ⟨some (ofText text), v :: vs⟩, st, w⟩ := by
  have hne : v ≠ "" := by
    rintro rfl
    cases hv
  have hcleaned := cleaned_ne_empty (Desk.ofString_ofText text) (by rw [hwords]; rfl) hne
  rw [r.outcome_readLine hplain.not_remark hplain.ne_empty (Desk.ofString_ofText text) hcleaned, hwords]

end Lines

/-! ### The rows of payloads -/

/-- Comments on lines of their own, and lines of a kind. -/
def Rows (p : Line → Prop) (ls : List String) : Prop :=
  ∀ l ∈ ls, isRemark l = true ∨ IsPlain l ∧ p (ofText l)

/-- A line that opens with the end of something. -/
def IsStop (l : Line) : Prop :=
  ∃ ws, l.words = Listing.directive .close :: ws

/-- A value of an array. -/
def IsArrayRow (l : Line) : Prop :=
  ∃ v vs value, l.words = v :: vs ∧ v ≠ "" ∧ v ≠ Listing.directive .close ∧ Literal.parse v = .ok value

/-- A branch of a sparse switch. -/
def IsSparseRow (l : Line) : Prop :=
  ∃ v vs, l.words = v :: vs ∧ v ≠ "" ∧ v ≠ Listing.directive .close

/-- A label of a packed switch. -/
def IsPackedRow (l : Line) : Prop :=
  ∃ v vs, l.words = v :: vs ∧ v.toList.head? = some ':'

/-- An item of a list that runs over several lines. -/
def IsItem (l : Line) : Prop :=
  ∃ a b, l.cleaned.toList.head? = some a ∧ l.cleaned.toList.getLast? = some b ∧ a ≠ '\x7d' ∧ b ≠ '\x7d'

/-- The end of a list that runs over several lines. -/
def EndsList (l : Line) : Prop :=
  ∃ a b, l.cleaned.toList.head? = some a ∧ l.cleaned.toList.getLast? = some b ∧ (a = '\x7d' ∨ b = '\x7d')

/-- A loop that keeps a row and goes on with the next line, up to one that ends it, with something that is gathered on
the way. -/
structure LoopsOver {α β : Type} (r : Reader ν σ) (keep : String → Slot ν → σ → σ) (shape : Shape) (p : Line → Prop)
    (stop : String) (kept : List String) (x : β → Nat → Read ν σ α) : Prop where
  row : ∀ l, p l → ∀ b, ∃ b' f, ∀ src st w, ∃ k', ∀ n,
    outcome (x b (n + 2)) ⟨src, ⟨some l, l.words⟩, .blank shape :: st, w⟩
      = outcome (do r.nextLine; f <$> x b' (n + 1)) ⟨src, k', .blank shape :: st, keep l.raw (.blank shape) w⟩
  stop : ∀ b src st w, ∃ v k', ∀ n,
    outcome (x b (n + 1)) ⟨src, ⟨some (ofText stop), (ofText stop).words⟩, .blank shape :: st, w⟩
      = (.ok v, ⟨src, k', .blank shape :: st, keepAll keep (keptLines (.blank shape) kept) w⟩)

/-- The first line of the rows is moved to before the loop starts, and comments are passed over on the way. -/
theorem LoopsOver.crosses {α β : Type} {keep : String → Slot ν → σ → σ} {shape : Shape} {p : Line → Prop}
    {stop : String} {kept ls : List String} {x : β → Nat → Read ν σ α} (h : r.LoopsOver keep shape p stop kept x)
    (hplain : IsPlain stop) (hls : Rows p ls) (rest : Lines) (st : Slots ν) (b : β)
    (k : Cursor) (w : σ) :
    ∃ mid k₁ k₂ v, mid.length < (ls.map some ++ some stop :: rest).length ∧
      outcome r.nextLine ⟨⟨ls.map some ++ some stop :: rest⟩, k, .blank shape :: st, w⟩
        = (.ok (), ⟨⟨mid⟩, k₁, .blank shape :: st, w⟩) ∧
      ∀ n, mid.length < n → outcome (x b n) ⟨⟨mid⟩, k₁, .blank shape :: st, w⟩
        = (.ok v, ⟨⟨rest⟩, k₂, .blank shape :: st, keepAll keep (keptLines (.blank shape) (ls ++ kept)) w⟩) := by
  induction ls generalizing b k w with
  | nil =>
    obtain ⟨v, k', hstop⟩ := h.stop b ⟨rest⟩ st w
    refine ⟨rest, _, k', v, by simp, outcome_nextLine_plain rest k _ w hplain, fun n hn => ?_⟩
    obtain ⟨n, rfl⟩ := Nat.exists_eq_succ_of_ne_zero (Nat.ne_of_gt (Nat.zero_lt_of_lt hn))
    exact hstop n
  | cons l ls ih =>
    have htail : Rows p ls := fun m hm => hls m (mem_cons_of_mem _ hm)
    rcases hls l mem_cons_self with hremark | ⟨hl, hrow⟩
    · obtain ⟨mid, k₁, k₂, v, hmid, hnext, hloop⟩ := ih htail b ⟨some (ofText l), (ofText l).words⟩ w
      rw [cons_append, keptLines_remark _ hremark]
      exact ⟨mid, k₁, k₂, v, Nat.lt_succ_of_lt hmid, (outcome_nextLine_muted _ k st w hremark).trans hnext, hloop⟩
    · obtain ⟨b', f, hstep⟩ := h.row _ hrow b
      obtain ⟨k', hstep⟩ := hstep ⟨ls.map some ++ some stop :: rest⟩ st w
      obtain ⟨mid, k₁, k₂, v, hmid, hnext, hloop⟩ := ih htail b' k' (keep (ofText l).raw (.blank shape) w)
      refine ⟨ls.map some ++ some stop :: rest, _, k₂, f v, by simp, outcome_nextLine_plain _ k _ w hl, fun n hn => ?_⟩
      obtain ⟨n, rfl⟩ : ∃ m, n = m + 2 := ⟨n - 2, by omega⟩
      rw [hstep, bind_ok _ hnext, map_eq_pure_bind, bind_ok _ (hloop (n + 1) (by omega)), cons_append,
        keptLines_plain _ hl, keepAll_cons, outcome_pure]

/-- The values of an array payload behind the move to a line. -/
def arrayRest (r : Reader ν σ) (_ : Unit) : Nat → Read ν σ (List Datum)
  | 0 => throw .endOfSource
  | n + 1 => do
    let word ← peekWord
    r.payloadLine true
    if ← isPayloadEnd word then pure []
    else
      let value ← attempt (Literal.parse word)
      pure (.literal value :: (← r.arrayValues true n))

/-- The branches of a sparse switch behind the move to a line. -/
def sparseRest (r : Reader ν σ) (branches : List (String × String)) : Nat → Read ν σ (List (String × String))
  | 0 => throw .endOfSource
  | n + 1 => do
    let key ← peekWord
    r.payloadLine true
    if ← isPayloadEnd key then pure branches
    else
      let target ← lastWord
      r.sparseBranches true n (setBranch key (labelName target) branches)

theorem arrayValues_eq (n : Nat) : r.arrayValues true (n + 1) = r.nextLine >>= fun _ => r.arrayRest () (n + 1) := rfl

theorem sparseBranches_eq (n : Nat) (branches : List (String × String)) :
    r.sparseBranches true (n + 1) branches = r.nextLine >>= fun _ => r.sparseRest branches (n + 1) := rfl

section Loops

variable {keep : String → Slot ν → σ → σ} (h : r.Keeps keep) {stop : String}

include h

theorem Keeps.outcome_payloadLine (l : Line) (ws : List String) (src : Source) (st : Slots ν) (w : σ) :
    outcome (r.payloadLine true) ⟨src, ⟨some l, ws⟩, .blank .method :: st, w⟩
      = (.ok (), ⟨src, ⟨some l, ws⟩, .blank .method :: st, keep l.raw (.blank .method) w⟩) := by
  rw [payloadLine, bind_ok _ (outcome_publishComment_blank ..)]
  exact h.outcome_copyLine _ _ _ _ _ _

theorem Keeps.outcome_payloadHead (l : Line) (ws : List String) (src : Source) (st : Slots ν) (w : σ) :
    outcome (r.payloadHead true) ⟨src, ⟨some l, ws⟩, .blank .method :: st, w⟩
      = (.ok (), ⟨src, ⟨some l, ws⟩, .blank .method :: st, keep l.raw (.blank .method) w⟩) := by
  rw [payloadHead, if_pos rfl, bind_ok _ (h.outcome_copyLine ..)]
  exact outcome_publishComment_blank _ _ _ _ _

section

variable (hplain : IsPlain stop) (hstop : IsStop (ofText stop))

include hplain hstop

theorem Keeps.loops_array : r.LoopsOver keep .method IsArrayRow stop [stop] r.arrayRest where
  row := by
    rintro l ⟨v, vs, value, hwords, hne, hclose, hvalue⟩ -
    refine ⟨(), (.literal value :: ·), fun src st w => ⟨⟨some l, v :: vs⟩, fun n => ?_⟩⟩
    rw [hwords, arrayRest, bind_ok _ (outcome_peekWord ..), bind_ok _ (h.outcome_payloadLine ..),
      bind_ok _ (outcome_isPayloadEnd hne _)]
    simp only [hclose, decide_false, Bool.false_eq_true, if_false]
    rw [hvalue, bind_ok _ (outcome_attempt _ _), arrayValues_eq, bind_assoc]
    simp only [map_eq_pure_bind]
  stop := by
    intro _ src st w
    obtain ⟨ws, hws⟩ := hstop
    refine ⟨[], ⟨some (ofText stop), Listing.directive .close :: ws⟩, fun n => ?_⟩
    rw [hws, arrayRest, bind_ok _ (outcome_peekWord ..), bind_ok _ (h.outcome_payloadLine ..),
      bind_ok _ (outcome_isPayloadEnd (by decide) _), keptLines_plain _ hplain, decide_eq_true rfl]
    rfl

theorem Keeps.loops_sparse : r.LoopsOver keep .method IsSparseRow stop [stop] r.sparseRest where
  row := by
    rintro l ⟨v, vs, hwords, hne, hclose⟩ branches
    have hlast : l.words.getLast? = some ((v :: vs).getLast (by simp)) := by
      rw [hwords, getLast?_eq_some_getLast]
    refine ⟨setBranch v (labelName ((v :: vs).getLast (by simp))) branches, id,
      fun src st w => ⟨⟨some l, v :: vs⟩, fun n => ?_⟩⟩
    rw [hwords, sparseRest, bind_ok _ (outcome_peekWord ..), bind_ok _ (h.outcome_payloadLine ..),
      bind_ok _ (outcome_isPayloadEnd hne _)]
    simp only [hclose, decide_false, Bool.false_eq_true, if_false]
    rw [bind_ok _ (outcome_lastWord _ _ _ _ hlast), sparseBranches_eq]
    simp only [id_map]
  stop := by
    intro branches src st w
    obtain ⟨ws, hws⟩ := hstop
    refine ⟨branches, ⟨some (ofText stop), Listing.directive .close :: ws⟩, fun n => ?_⟩
    rw [hws, sparseRest, bind_ok _ (outcome_peekWord ..), bind_ok _ (h.outcome_payloadLine ..),
      bind_ok _ (outcome_isPayloadEnd (by decide) _), keptLines_plain _ hplain, decide_eq_true rfl]
    rfl

theorem Keeps.loops_packed : r.LoopsOver keep .method IsPackedRow stop [stop] fun _ : Unit => r.packedLabels true where
  row := by
    rintro l ⟨v, vs, hwords, hcolon⟩ -
    refine ⟨(), (labelName v :: ·), fun src st w => ⟨⟨some l, vs⟩, fun n => ?_⟩⟩
    rw [hwords, packedLabels, bind_ok _ (outcome_nextWord ..), bind_ok _ (h.outcome_payloadLine ..),
      bind_ok _ (outcome_firstChar hcolon _), if_pos (by decide)]
    simp only [map_eq_pure_bind]
  stop := by
    intro _ src st w
    obtain ⟨ws, hws⟩ := hstop
    have hdot : (Listing.directive .close).toList.head? = some '.' := (isBare_directive _).2
    refine ⟨[], ⟨some (ofText stop), ws⟩, fun n => ?_⟩
    rw [packedLabels, hws, bind_ok _ (outcome_nextWord ..), bind_ok _ (h.outcome_payloadLine ..),
      bind_ok _ (outcome_firstChar hdot _), keptLines_plain _ hplain, if_neg (by decide)]
    rfl

end

theorem Keeps.loops_listed (hstop : EndsList (ofText stop)) :
    r.LoopsOver keep .annot (fun l => l.words ≠ [] ∧ IsItem l) stop [] fun _ : Unit => r.listedValues true where
  row := by
    rintro l ⟨hne, a, b, ha, hb, hstart, hend⟩ -
    obtain ⟨v, vs, hwords⟩ := exists_cons_of_ne_nil hne
    refine ⟨(), (trimEnd (· == ',') v :: ·), fun src st w => ⟨⟨some l, v :: vs⟩, fun n => ?_⟩⟩
    rw [hwords, listedValues, bind_ok _ (outcome_cleaned ..), bind_ok _ (outcome_cleaned ..), ha, hb]
    dsimp only
    rw [if_neg (by simp [hstart, hend]), bind_ok _ (outcome_peekWord ..), bind_ok _ (outcome_publishComment_blank ..),
      if_pos rfl, bind_ok _ (h.outcome_copyLine ..)]
    simp only [map_eq_pure_bind]
  stop := by
    intro _ src st w
    obtain ⟨a, b, ha, hb, hbrace⟩ := hstop
    refine ⟨[], ⟨some (ofText stop), (ofText stop).words⟩, fun n => ?_⟩
    rw [listedValues, bind_ok _ (outcome_cleaned ..), bind_ok _ (outcome_cleaned ..), ha, hb]
    dsimp only
    rw [if_pos (by simpa using hbrace.symm)]
    rfl

end Loops

/-! ### Crossing lines -/

/-- Reading gets somewhere, by one line at least. -/
def Arrives (r : Reader ν σ) (s : Session ν σ) (goal : Session ν σ → Prop) : Prop :=
  ∃ u t, outcome r.readLine s = (.ok (), u) ∧ r.Reads u t ∧ goal t

/-- Reading gets from in front of some lines wherever it gets from behind them. A comment at the end of the lines is
passed over together with the line that follows, so nothing is said of a reading that stops there. -/
def Crosses (r : Reader ν σ) (ls : List String) (st : List (Slot ν)) (w : σ) (st' : List (Slot ν)) (w' : σ) : Prop :=
  ∀ rest goal, (∀ k, r.Arrives ⟨⟨rest⟩, k, st', w'⟩ goal) → ∀ k, r.Arrives ⟨⟨ls.map some ++ rest⟩, k, st, w⟩ goal

namespace Crosses

variable {ls ls' : List String} {st st₁ st₂ : Slots ν} {w w₁ w₂ : σ}

theorem nil (st : Slots ν) (w : σ) : r.Crosses [] st w st w :=
  fun _ _ hgoal => hgoal

theorem append (h : r.Crosses ls st w st₁ w₁) (h' : r.Crosses ls' st₁ w₁ st₂ w₂) :
    r.Crosses (ls ++ ls') st w st₂ w₂ := by
  intro rest goal hgoal k
  rw [map_append, append_assoc]
  exact h _ goal (h' rest goal hgoal) k

theorem of_takes (h : r.Takes ls st w st₁ w₁) : r.Crosses ls st w st₁ w₁ := by
  intro rest goal hgoal k
  obtain ⟨k', hread⟩ := h rest k
  obtain ⟨u, t, hu, hmore, ht⟩ := hgoal k'
  exact ⟨_, t, hread, .line hu hmore, ht⟩

theorem remark {text : String} (hremark : isRemark text = true) (shape : Shape) (st : Slots ν) (w : σ) :
    r.Crosses [text] (.blank shape :: st) w (.blank shape :: st) w := by
  intro rest goal hgoal k
  obtain ⟨u, t, hu, hmore, ht⟩ := hgoal ⟨some (ofText text), (ofText text).words⟩
  exact ⟨u, t, (outcome_readLine_muted rest k st w hremark).trans hu, hmore, ht⟩

theorem reads (h : r.Crosses ls st w st₁ w₁) {l : String} (hl : r.Takes [l] st₁ w₁ st₂ w₂) (rest : Lines) (k : Cursor) :
    ∃ k', r.Reads ⟨⟨ls.map some ++ some l :: rest⟩, k, st, w⟩ ⟨⟨rest⟩, k', st₂, w₂⟩ := by
  have hlast : ∀ k, r.Arrives ⟨⟨some l :: rest⟩, k, st₁, w₁⟩ fun t => ∃ k', t = ⟨⟨rest⟩, k', st₂, w₂⟩ := by
    intro k
    obtain ⟨k', hread⟩ := hl rest k
    exact ⟨_, _, hread, .refl _, k', rfl⟩
  obtain ⟨u, t, hu, hmore, k', rfl⟩ := h _ _ hlast k
  exact ⟨k', .line hu hmore⟩

end Crosses

end Reader

end Dalvik
