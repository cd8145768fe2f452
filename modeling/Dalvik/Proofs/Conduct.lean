import Dalvik.Proofs.Steps

/-!
# What reading does on a line

Words are passed on the current line, and nothing else is done there: two readers with nodes and worlds of their own
do it in the same way (`Read.Parallel`), and a contract that moving on the line keeps is kept by all of it
(`Reader.Passes`). A contract that taking lines and delivering events keep as well is kept by moving to the next line
(`Reader.Conducts`). The faults that reading itself can end in are listed by `Fault.ofReading`; the end of the source
is set apart from them, because a reader reports it only when no line is left.
-/

namespace Dalvik

open Contract Descriptor Read

variable {ν ν' σ σ' α β : Type}
variable {x : Read ν σ α} {slot : Slot ν} {s t : Session ν σ}

/-- The faults that reading itself ends in, the end of the source apart. -/
def Fault.ofReading : Fault → Bool
  | lineExhausted | expectedDot _ | expectedKeyword _ _ | expectedDescriptor _ | expectedSuper _
  | expectedClass | unexpectedEndOfLine | invalidStatement _ | expectedSignature | localValues _
  | namelessSignature _ | invalidSignature | noLiteral _ | numeral | partCount | undecodable
  | noElement | noOperation | operandCount | endless => true
  | _ => false

/-- A computation ends only in faults of reading. -/
def Fault.Bounds (x : Except Fault α) : Prop :=
  ∀ f, x = .error f → f.ofReading = true

/-- Whether an event of this verb opens or closes a construct. -/
def Verb.nests : Verb → Bool
  | close | field | method | innerClass | annot | subAnnot => true
  | _ => false

/-- Whether a directive opens or closes a construct. -/
def Directive.nests : Directive → Bool
  | field | close | method | annot | subAnnot => true
  | _ => false

/-! ### Faults -/

open Fault (Bounds)

theorem Descriptor.ofString_fault (t : String) : Bounds (ofString t) := by
  intro f hf
  unfold ofString at hf
  split at hf <;> cases hf
  rfl

theorem Text.halves_fault (sep w : String) : Bounds (halves sep w) := by
  intro f hf
  unfold halves at hf
  split at hf <;> cases hf
  rfl

theorem Literal.parse_fault (w : String) : Bounds (parse w) := by
  intro f hf
  have integer {m : Bool} {t : List Char} (ht : readInteger m t = .error f) : f.ofReading = true := by
    unfold readInteger at ht
    split at ht <;> cases ht
    rfl
  have fraction {t : List Char} (ht : readFraction t = .error f) : f.ofReading = true := by
    unfold readFraction at ht
    split at ht <;> cases ht
    rfl
  unfold parse at hf
  split at hf
  · rename_i form _
    cases form with
    | suffixed => exact integer hf
    | integer => exact integer hf
    | boolean => cases hf
    | single => exact fraction hf
    | double => exact fraction hf
    | character => cases hf
    | string =>
      simp only [Form.read] at hf
      split at hf <;> cases hf
      rfl
    | type =>
      simp only [Form.read] at hf
      cases hd : ofString (String.ofList w.toList) with
      | ok d => rw [hd] at hf; cases hf
      | error g =>
        rw [hd] at hf
        cases hf
        exact ofString_fault _ _ hd
  · cases hf
    rfl

namespace Signature

variable (sig : Signature)

theorem name_fault : Bounds sig.name := by
  intro f hf
  unfold name at hf
  split at hf <;> cases hf
  rfl

theorem parameterTypes_fault : Bounds sig.parameterTypes := by
  intro f hf
  have all (ps : List (List Char)) (e : ps.mapM (fun p => ofString (String.ofList p)) = .error f) :
      f.ofReading = true := by
    induction ps with
    | nil => cases e
    | cons p ps ih =>
      rw [List.mapM_cons] at e
      cases hp : ofString (String.ofList p) with
      | error g =>
        rw [hp] at e
        cases e
        exact ofString_fault _ _ hp
      | ok d =>
        cases hps : ps.mapM fun p => ofString (String.ofList p) with
        | error g =>
          rw [hp, hps] at e
          cases e
          exact ih hps
        | ok ds =>
          rw [hp, hps] at e
          cases e
  unfold parameterTypes at hf
  split at hf
  · exact all _ hf
  · cases hf
    rfl

theorem returnType_fault : Bounds sig.returnType := by
  intro f hf
  unfold returnType at hf
  split at hf
  · cases hf
    rfl
  · exact ofString_fault _ f hf

end Signature

/-! ### Words -/

namespace Read

/-- Two steps that look at the current line in the same way, move on it in the same way, and do nothing else; all
that they can end in are faults of reading. -/
def Parallel (x : Read ν σ α) (x' : Read ν' σ' α) : Prop :=
  ∃ g : Cursor → Except Fault α × Cursor, (∀ s, outcome x s = ((g s.cursor).1, { s with cursor := (g s.cursor).2 })) ∧
      (∀ s, outcome x' s = ((g s.cursor).1, { s with cursor := (g s.cursor).2 })) ∧ ∀ k, Bounds (g k).1

theorem Parallel.eq {x' : Read ν σ α} (h : Parallel x x') : x = x' := by
  obtain ⟨g, hg, hg', -⟩ := h
  funext s
  exact (hg s).trans (hg' s).symm

theorem parallel_attempt {x : Except Fault α} (hx : Bounds x) :
    Parallel (attempt x : Read ν σ α) (attempt x : Read ν' σ' α) :=
  ⟨fun k => (x, k), fun _ => rfl, fun _ => rfl, fun _ => hx⟩

theorem parallel_pure (a : α) : Parallel (pure a : Read ν σ α) (pure a : Read ν' σ' α) :=
  parallel_attempt (x := .ok a) nofun

theorem parallel_throw {f : Fault} (hf : f.ofReading = true) :
    Parallel (throw f : Read ν σ α) (throw f : Read ν' σ' α) :=
  parallel_attempt (x := .error f) fun _ h => Except.error.inj h ▸ hf

theorem Parallel.bind {x' : Read ν' σ' α} {k : α → Read ν σ β} {k' : α → Read ν' σ' β} (hx : Parallel x x')
    (hk : ∀ a, Parallel (k a) (k' a)) : Parallel (x >>= k) (x' >>= k') := by
  obtain ⟨g, hg, hg', hf⟩ := hx
  let j (c : Cursor) : Except Fault β × Cursor := match g c with
    | (.ok a, c') => (hk a).choose c'
    | (.error f, c') => (.error f, c')
  refine ⟨j, fun s => ?_, fun s => ?_, fun c => ?_⟩
  · rw [outcome_bind, hg]
    dsimp only [j]
    rcases g s.cursor with ⟨res, c⟩
    cases res with
    | ok a => exact (hk a).choose_spec.1 { s with cursor := c }
    | error f => rfl
  · rw [outcome_bind, hg']
    dsimp only [j]
    rcases g s.cursor with ⟨res, c⟩
    cases res with
    | ok a => exact (hk a).choose_spec.2.1 { s with cursor := c }
    | error f => rfl
  · have hc := hf c
    dsimp only [j]
    generalize g c = p at hc
    obtain ⟨f | a, c'⟩ := p
    · exact fun e he => hc e (congrArg Except.error (Except.error.inj he))
    · exact (hk a).choose_spec.2.2 c'

theorem parallel_get_bind {k : Session ν σ → Read ν σ α} {k' : Session ν' σ' → Read ν' σ' α}
    (g : Cursor → Except Fault α × Cursor)
    (h : ∀ s, outcome (k s) s = ((g s.cursor).1, { s with cursor := (g s.cursor).2 }))
    (h' : ∀ s, outcome (k' s) s = ((g s.cursor).1, { s with cursor := (g s.cursor).2 })) (hg : ∀ c, Bounds (g c).1) :
    Parallel (get >>= k) (get >>= k') :=
  ⟨g, h, h', hg⟩

theorem parallel_look {look : Cursor → Except Fault α} (h : ∀ c, Bounds (look c)) :
    Parallel (do attempt (look (← get).cursor) : Read ν σ α) (do attempt (look (← get).cursor) : Read ν' σ' α) :=
  parallel_get_bind (fun c => (look c, c)) (fun _ => rfl) (fun _ => rfl) h

theorem parallel_nextWord : Parallel (nextWord : Read ν σ String) (nextWord : Read ν' σ' String) :=
  parallel_get_bind (fun c => (c.next.map Prod.fst, c.next.toOption.elim c Prod.snd))
    (fun s => by cases s.cursor.next <;> rfl) (fun s => by cases s.cursor.next <;> rfl)
    fun c f hf => by unfold Cursor.next at hf; split at hf <;> cases hf; rfl

theorem parallel_peekWord : Parallel (peekWord : Read ν σ String) (peekWord : Read ν' σ' String) :=
  parallel_look fun c f hf => by unfold Cursor.peek at hf; split at hf <;> cases hf; rfl

theorem parallel_hasWord : Parallel (hasWord : Read ν σ Bool) (hasWord : Read ν' σ' Bool) :=
  parallel_get_bind (fun c => (.ok c.hasNext, c)) (fun _ => rfl) (fun _ => rfl) nofun

theorem parallel_lastWord : Parallel (lastWord : Read ν σ String) (lastWord : Read ν' σ' String) :=
  parallel_look fun c f hf => by unfold Cursor.last at hf; split at hf <;> cases hf; rfl

theorem parallel_currentLine : Parallel (currentLine : Read ν σ Line) (currentLine : Read ν' σ' Line) :=
  parallel_look fun c f hf => by unfold Cursor.line at hf; split at hf <;> cases hf; rfl

theorem parallel_cleaned : Parallel (cleaned : Read ν σ (List Char)) (cleaned : Read ν' σ' (List Char)) :=
  parallel_currentLine.bind fun _ => parallel_pure _

theorem parallel_firstChar (w : String) : Parallel (firstChar w : Read ν σ Char) (firstChar w : Read ν' σ' Char) := by
  unfold firstChar
  split
  · exact parallel_pure _
  · exact parallel_throw rfl

end Read

namespace Reader

open Read Dalvik.Text

theorem parallel_accessFlags : Parallel (accessFlags : Read ν σ Datum) (accessFlags : Read ν' σ' Datum) :=
  parallel_get_bind (fun c => match splitAccess c.pending with
    | none => (.error .lineExhausted, { c with pending := [] })
    | some found => (.ok (.int (Access.flags found.1)), { c with pending := found.2 }))
    (fun s => by cases splitAccess s.cursor.pending <;> rfl) (fun s => by cases splitAccess s.cursor.pending <;> rfl)
    fun c f hf => by cases hc : splitAccess c.pending <;> rw [hc] at hf <;> cases hf; rfl

theorem parallel_operands (strip : Char → Bool) :
    Parallel (operands strip : Read ν σ (List String)) (operands strip : Read ν' σ' (List String)) :=
  parallel_get_bind (fun c => match operandsIn strip c.pending with
    | none => (.error .noElement, { c with pending :=
        (c.pending.dropWhile fun w => !(dropEnd strip w.toList).isEmpty).drop 1 })
    | some xs => (.ok xs, { c with pending := [] }))
    (fun s => by cases h : operandsIn strip s.cursor.pending <;> simp only [h] <;> rfl)
    (fun s => by cases h : operandsIn strip s.cursor.pending <;> simp only [h] <;> rfl)
    fun c f hf => by cases hc : operandsIn strip c.pending <;> rw [hc] at hf <;> cases hf; rfl

theorem parallel_wordBound : Parallel (wordBound : Read ν σ Nat) (wordBound : Read ν' σ' Nat) :=
  parallel_get_bind (fun c => (.ok (2 * c.pending.length + 2), c)) (fun _ => rfl) (fun _ => rfl) nofun

theorem parallel_handlerLabels : Parallel (handlerLabels : Read ν σ Datum) (handlerLabels : Read ν' σ' Datum) := by
  refine parallel_cleaned.bind fun text => ?_
  dsimp only
  split
  · exact parallel_lastWord.bind fun _ => parallel_pure _
  · exact parallel_throw rfl

theorem parallel_braced : Parallel (braced : Read ν σ (List String)) (braced : Read ν' σ' (List String)) :=
  parallel_cleaned.bind fun _ => parallel_pure _

theorem parallel_isPayloadEnd (w : String) :
    Parallel (isPayloadEnd w : Read ν σ Bool) (isPayloadEnd w : Read ν' σ' Bool) :=
  (parallel_firstChar w).bind fun _ => parallel_pure _

theorem parallel_halves (sep w : String) :
    Parallel (attempt (halves sep w) : Read ν σ _) (attempt (halves sep w) : Read ν' σ' _) :=
  parallel_attempt (halves_fault sep w)

section Checks

variable {r : Reader ν σ} {r' : Reader ν' σ'} (h : r'.options = r.options)

include h

theorem parallel_checkDescriptor (w : String) : Parallel (r.checkDescriptor w) (r'.checkDescriptor w) := by
  unfold checkDescriptor
  rw [h]
  split
  · exact parallel_throw rfl
  · exact parallel_pure _

theorem parallel_checkKeyword (w : String) (k : Keyword) : Parallel (r.checkKeyword w k) (r'.checkKeyword w k) := by
  unfold checkKeyword
  rw [h]
  split
  · refine (parallel_firstChar w).bind fun c => ?_
    dsimp only
    split
    · exact parallel_throw rfl
    · split
      · exact parallel_throw rfl
      · exact parallel_pure _
  · exact parallel_pure _

theorem parallel_passKeyword (k : Keyword) : Parallel (r.passKeyword k) (r'.passKeyword k) :=
  parallel_nextWord.bind fun w => parallel_checkKeyword h w k

theorem parallel_checkCount (n : Nat) :
    Parallel (if n != 3 && r.options.validate then throw (.localValues n) else pure () : Read ν σ Unit)
      (if n != 3 && r'.options.validate then throw (.localValues n) else pure () : Read ν' σ' Unit) := by
  rw [h]
  split
  · exact parallel_throw rfl
  · exact parallel_pure _

end Checks

/-! ### Contracts -/

/-- Passing words keeps a contract. -/
structure Passes (c : Contract (Session ν σ)) : Prop where
  moves : ∀ s k, c.holds s → c.holds { s with cursor := k } ∧ c.leads s { s with cursor := k }
  faults : ∀ f s, c.holds s → f.ofReading = true → c.admits f s

/-- The actions of a reader that opens and closes nothing keep a contract, as long as the innermost node is fit. -/
structure Conducts (r : Reader ν σ) (c : Contract (Session ν σ)) (fit : ν → Prop) : Prop extends Passes c where
  takes : ∀ s l ls, c.holds s → s.source.lines = l :: ls →
    c.holds { s with source := ⟨ls⟩ } ∧ c.leads s { s with source := ⟨ls⟩ }
  shrinks : ∀ s t, c.leads s t → t.source.lines.length ≤ s.source.lines.length
  ends : ∀ s, c.holds s → s.source.lines = [] → c.admits .endOfSource s
  fits : ∀ n rest s, c.holds s → s.stack = .node n :: rest → fit n
  tells : ∀ n e s, c.holds s → fit n → e.verb.nests = false → c.KeptAt (r.sendTo (.node n) e) s
  copies : c.Kept r.copyLine

namespace Passes

variable {r : Reader ν σ} {c : Contract (Session ν σ)} (h : Passes c)

include h

theorem onLine (hx : Parallel x x) : c.Kept x := by
  obtain ⟨g, hg, -, hf⟩ := hx
  intro s hs
  obtain ⟨ht, hst⟩ := h.moves s (g s.cursor).2 hs
  rcases hgs : g s.cursor with ⟨res, k⟩
  have e := hg s
  rw [hgs] at e ht hst
  cases res with
  | ok a => exact .of_ok e ht hst
  | error f => exact .of_error e ht hst (h.faults f _ ht (hf s.cursor f (by rw [hgs])))

/-- Whatever is done with the innermost construct keeps the contract if it does so for the construct
that is on top of the stack. -/
theorem top_bind {k : Slot ν → Read ν σ α}
    (hk : ∀ slot rest s, c.holds s → s.stack = slot :: rest → c.KeptAt (k slot) s) :
    c.Kept (top >>= k) := by
  rintro ⟨src, cur, st, w⟩ hs
  cases st with
  | nil => exact .of_error rfl hs (c.refl _) (h.faults _ _ hs rfl)
  | cons slot rest => exact keptAt_bind_of_ok (outcome_top ..) (c.refl _) (hk slot rest _ hs rfl)

theorem top : c.Kept (top : Read ν σ (Slot ν)) := by
  have e : (Read.top : Read ν σ (Slot ν)) = Read.top >>= pure := by simp
  rw [e]
  exact h.top_bind fun slot _ s hs _ => keptAt_pure hs slot

theorem require (slot : Slot ν) (v : Verb) : c.Kept (r.require slot v) :=
  kept_ite (fun _ => kept_pure _) fun _ => h.onLine (parallel_throw rfl)

theorem atLineEnd [Inhabited α] {body : Read ν σ α} (hb : c.Kept body) : c.Kept (r.atLineEnd body) := by
  intro s hs
  refine keptAt_tryCatch (hb s hs) fun f t _ ht _ hf => ?_
  split
  · split
    · exact keptAt_throw ht (h.faults _ t ht rfl)
    · exact keptAt_pure ht _
  · exact keptAt_throw ht hf

end Passes

namespace Conducts

variable {r : Reader ν σ} {c : Contract (Session ν σ)} {fit : ν → Prop} (h : r.Conducts c fit)

include h

theorem tellTo (hslot : ∀ n, slot = .node n → fit n) {e : Event} (he : e.verb.nests = false) :
    c.Kept (r.sendTo slot e) := by
  cases slot with
  | node n => exact fun s hs => h.tells n e s hs (hslot n rfl) he
  | absent => exact h.onLine (parallel_throw rfl)
  | blank shape => exact (h.require (.blank shape) e.verb).bind fun _ => kept_pure _

theorem fits_top {rest : Slots ν} (hs : c.holds s) (hst : s.stack = slot :: rest) : ∀ n, slot = .node n → fit n :=
  fun n hn => h.fits n rest s hs (hn ▸ hst)

/-! ### Lines -/

theorem advance : c.Kept (advance : Read ν σ String) := by
  rintro ⟨⟨ls⟩, k, st, d⟩ hs
  match ls with
  | [] => exact .of_error (outcome_advance_nil k st d) hs (c.refl _) (h.ends _ hs rfl)
  | none :: ls =>
    obtain ⟨ht, hst⟩ := h.takes _ none ls hs rfl
    exact .of_error (outcome_advance_none ls k st d) ht hst (h.faults _ _ ht rfl)
  | some l :: ls =>
    obtain ⟨ht, hst⟩ := h.takes _ (some l) ls hs rfl
    obtain ⟨k', hk⟩ := Cursor.reset_ok k l
    have e := outcome_advance_some l ls k st d
    rw [hk] at e
    obtain ⟨hu, htu⟩ := h.moves _ k' ht
    exact .of_ok e hu (c.trans hst htu)

theorem remark : c.Kept r.remark := by
  refine h.top_bind fun slot rest s hs hst => ?_
  split
  · split
    · exact h.copies s hs
    · refine keptAt_bind (h.onLine parallel_currentLine s hs) fun l t _ ht _ => ?_
      exact keptAt_bind (h.tellTo (h.fits_top hs hst) rfl t ht) fun _ u _ hu _ => keptAt_pure hu ()
  · exact keptAt_pure hs ()

/-- Moving to the next line that is no comment keeps the contract, among more lines than are left: the
end of the source is then reported only when none is left. -/
theorem nextLineWithin (n : Nat) (s : Session ν σ) (hs : c.holds s)
    (hn : s.source.lines.length < n) : c.KeptAt (r.nextLineWithin n) s := by
  induction n generalizing s with
  | zero => omega
  | succ n ih =>
    refine keptAt_bind (h.advance s hs) fun l t ha ht hst => ?_
    have hlen : t.source.lines.length < n := by
      have := congrArg List.length (advance_ok ha).1
      simp at this
      omega
    split
    · refine keptAt_bind (h.remark t ht) fun _ u _ hu htu => ih u hu ?_
      have := h.shrinks t u htu
      omega
    · exact keptAt_pure ht ()

theorem nextLine : c.Kept r.nextLine :=
  fun s hs => keptAt_bind_of_ok (outcome_get s) (c.refl s) (h.nextLineWithin _ s hs (Nat.lt_succ_self _))

theorem nextLineWithin_shorter (n : Nat) (hs : c.holds s) (e : outcome (r.nextLineWithin n) s = (.ok (), t)) :
    t.source.lines.length < s.source.lines.length := by
  induction n generalizing s with
  | zero => simp [Reader.nextLineWithin] at e
  | succ n ih =>
    obtain ⟨l, u, ha, hu⟩ := outcome_bind_eq_ok s e
    have hlen := congrArg List.length (advance_ok ha).1
    simp only [List.length_cons] at hlen
    have hhu := (h.advance s hs).holds_of ha
    split at hu
    · obtain ⟨_, v, hr, hv⟩ := outcome_bind_eq_ok u hu
      have hremark := h.remark u hhu
      have huv := h.shrinks u v (hremark.leads_of hr)
      have := ih (hremark.holds_of hr) hv
      omega
    · obtain rfl : u = t := by simpa using hu
      omega

theorem nextLine_shorter (hs : c.holds s) (e : outcome r.nextLine s = (.ok (), t)) :
    t.source.lines.length < s.source.lines.length :=
  h.nextLineWithin_shorter _ hs e

end Conducts

end Reader

end Dalvik
