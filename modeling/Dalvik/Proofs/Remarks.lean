import Dalvik.Proofs.Abreast
import Dalvik.Proofs.Isolation
import Dalvik.Proofs.Octets
import Dalvik.Proofs.Words

/-!
# Comments on lines of their own

Comments on lines of their own are inert (`Audience.visit_remarks_inert`): inserting or deleting them at line
boundaries (`Source.statements_insert`) changes neither the result of a reading, nor the constructs that it leaves
open, nor the calls that are made for anything else. With the comments switched off this holds of every audience;
with the comments switched on it holds of every audience that goes on as if it had not heard them, and of no less,
since what an audience has heard may decide what it does later: `Audience.visit_saved_by_remark` is about the writer.

With an empty stack the two readings part, since a comment asks for the innermost construct and a blank line does
not. But then every reading ends in the same fault and changes nothing (`Reader.outcome_readBody_of_empty`).
-/

namespace Dalvik

open Dalvik.Text List

namespace Source

theorem cutLines_append_of_ends {α : Type} {isEnd : α → Bool} {xs : List α} (hne : xs ≠ [])
    (h : ∀ x, xs.getLast? = some x → isEnd x = true) (line ys : List α) :
    cutLines isEnd line (xs ++ ys) = cutLines isEnd line xs ++ cutLines isEnd [] ys := by
  induction xs generalizing line with
  | nil => exact absurd rfl hne
  | cons x xs ih =>
    cases xs with
    | nil => simp [cutLines, h x rfl]
    | cons y xs =>
      have hrest := ih (cons_ne_nil y xs) (by simpa using h)
      rw [cons_append, cutLines, cutLines]
      split
      · rw [hrest, cons_append]
      · rw [hrest]

theorem lines_append {a : String} (ha : a = "" ∨ a.toList.getLast? = some '\n') (b : String) :
    (ofString (a ++ b)).lines = (ofString a).lines ++ (ofString b).lines := by
  rcases ha with rfl | ha
  · simp [ofString, cutLines]
  · have hne : a.toList ≠ [] := by
      intro hnil
      simp [hnil] at ha
    have hends (x : Char) (hx : a.toList.getLast? = some x) : (x == '\n') = true := by
      rw [ha] at hx
      cases hx
      rfl
    simp [ofString, cutLines_append_of_ends hne hends]

theorem statements_insert {a c : String} (ha : a = "" ∨ a.toList.getLast? = some '\n') (hc : '\n' ∉ c.toList)
    (hremark : Line.isRemark (c ++ "\n") = true) (b : String) :
    (ofString (a ++ ((c ++ "\n") ++ b))).statements = (ofString (a ++ b)).statements := by
  have hline : (ofString (c ++ "\n")).lines = [some (c ++ "\n")] := by
    have hinside (x : Char) (hx : x ∈ c.toList) : (x == '\n') = false := by
      rw [beq_eq_false_iff_ne]
      rintro rfl
      exact hc hx
    simp [ofString, cutLines_append hinside, cutLines]
  have hend : (c ++ "\n").toList.getLast? = some '\n' := by simp
  simp only [statements, lines_append ha, lines_append (.inr hend), hline, filter_append, map_append]
  simp [hremark]

end Source

namespace Audience

variable {ν σ : Type} {W : σ → σ → Prop}

/-- Two readings that are over: the same result, the same constructs left open, the same calls, comments apart. -/
structure Ended (comments : Bool) (x x' : Except Fault Unit × Session ν (Attendance ν σ)) : Prop where
  result : x.1 = x'.1
  stack : x.2.stack = x'.2.stack
  calls : spoken x.2.world.calls = spoken x'.2.world.calls
  silent : comments = false → ∀ c ∈ x.2.world.calls, c.2.isComment = false

theorem Abreast.ended {comments : Bool} {s s' : Session ν (Attendance ν σ)} (h : Abreast W comments s s')
    (res : Except Fault Unit) : Ended comments (res, s) (res, s') :=
  ⟨rfl, h.stack, h.calls, h.silent⟩

end Audience

namespace Reader

open Read

variable {ν σ : Type} {r : Reader ν σ}

theorem outcome_statement_of_empty (src : Source) (line? : Option Line) (v : String) (vs : List String) (w : σ) :
    outcome r.statement ⟨src, ⟨line?, v :: vs⟩, [], w⟩ = (.error .noElement, ⟨src, ⟨line?, v :: vs⟩, [], w⟩) := by
  cases hv : v.toList.head? with
  | none =>
    simp only [statement, outcome_bind, outcome_peekWord, firstChar, hv]
    rfl
  | some c =>
    simp only [statement, outcome_bind, outcome_peekWord, firstChar, hv, outcome_pure]
    split
    · rfl
    · split
      · rfl
      · rfl

theorem readLine_of_empty {s t : Session ν σ} {res : Except Fault Unit} (hst : s.stack = [])
    (hwhole : some "" ∉ s.source.lines) (h : outcome r.readLine s = (res, t)) :
    t.stack = [] ∧ t.world = s.world ∧ some "" ∉ t.source.lines ∧
      ∀ f, res = .error f → f = .noElement ∨ f.endsReading = true := by
  obtain ⟨⟨lines⟩, k, st, w⟩ := s
  obtain rfl : st = [] := hst
  cases lines with
  | nil =>
    cases h
    exact ⟨rfl, rfl, hwhole, fun f hf => .inr (by cases hf; rfl)⟩
  | cons line? lines =>
    have hwhole' : some "" ∉ lines := fun hmem => hwhole (.tail _ hmem)
    cases line? with
    | none =>
      cases h
      exact ⟨rfl, rfl, hwhole', fun f hf => .inr (by cases hf; rfl)⟩
    | some text =>
      have hne : text ≠ "" := by
        rintro rfl
        exact hwhole mem_cons_self
      obtain ⟨l, hl⟩ := Line.ofString_ok text
      have sinks (hout : outcome r.readLine ⟨⟨some text :: lines⟩, k, [], w⟩
          = (.error .noElement, ⟨⟨lines⟩, ⟨some l, l.words⟩, [], w⟩)) :
          t.stack = [] ∧ t.world = w ∧ some "" ∉ t.source.lines ∧
            ∀ f, res = .error f → f = .noElement ∨ f.endsReading = true := by
        obtain ⟨rfl, rfl⟩ := Prod.mk.inj (h.symm.trans hout)
        exact ⟨rfl, rfl, hwhole', fun f hf => .inl (Except.error.inj hf).symm⟩
      cases hremark : Line.isRemark text with
      | true =>
        have hreset : k.reset text = .ok ⟨some l, l.words⟩ := by
          simp [Cursor.reset, hne, hl, Except.map]
        have hadvance := outcome_advance_some text lines k ([] : Slots ν) w
        rw [hreset] at hadvance
        refine sinks ?_
        rw [readLine, nextLine, outcome_bind, outcome_bind, outcome_get]
        dsimp only
        rw [nextLineWithin, bind_ok _ hadvance]
        simp only [hremark, if_true]
        rfl
      | false =>
        have hnext := r.outcome_nextLine hremark hne hl lines k [] w
        by_cases hcleaned : l.cleaned = ""
        · cases hcopy : r.host.copy? with
          | none =>
            have hout : outcome r.readLine ⟨⟨some text :: lines⟩, k, [], w⟩
                = (.ok (), ⟨⟨lines⟩, ⟨some l, l.words⟩, [], w⟩) := by
              rw [readLine, bind_ok _ hnext]
              simp [outcome_bind, hcleaned, copyLine, hcopy]
            obtain ⟨rfl, rfl⟩ := Prod.mk.inj (h.symm.trans hout)
            exact ⟨rfl, rfl, hwhole', fun f hf => by cases hf⟩
          | some copy =>
            refine sinks ?_
            rw [readLine, bind_ok _ hnext]
            simp only [outcome_bind, outcome_currentLine, hcleaned, copyLine, hcopy]
            rfl
        · obtain ⟨v, vs, hwords⟩ := exists_cons_of_ne_nil (Line.words_ne_nil hl)
          refine sinks ?_
          rw [r.outcome_readLine hremark hne hl hcleaned, hwords]
          exact outcome_statement_of_empty _ _ v vs w

/-- With no construct open a source is read up to a line that asks for one, or to its end, which asks for one as
well. -/
theorem outcome_readBody_of_empty (h : r.host.Private) {s : Session ν σ} (hst : s.stack = [])
    (hwhole : some "" ∉ s.source.lines) :
    ∃ t, outcome r.readBody s = (.error .noElement, t) ∧ t.stack = [] ∧ t.world = s.world := by
  obtain ⟨f, u, hstop⟩ := (governs_taking h).exists_stops (s := s) trivial
  have hu : u.stack = [] ∧ u.world = s.world ∧ (f = .noElement ∨ f.endsReading = true) := by
    obtain ⟨t, ht, hf⟩ := hstop
    induction ht with
    | refl s =>
      obtain ⟨hst', hw', -, hfault⟩ := readLine_of_empty hst hwhole hf
      exact ⟨hst', hw', hfault f rfl⟩
    | line hl _ ih =>
      obtain ⟨hst', hw', hwhole', -⟩ := readLine_of_empty hst hwhole hl
      obtain ⟨hstu, hwu, hfault⟩ := ih hst' hwhole' hf
      exact ⟨hstu, hwu.trans hw', hfault⟩
  obtain ⟨hstu, hwu, hfault⟩ := hu
  refine ⟨u, ?_, hstu, hwu⟩
  rw [(governs_taking h).outcome_readBody trivial hstop]
  rcases hfault with rfl | hends
  · rfl
  · rw [if_pos hends]
    obtain ⟨src, k, st, w⟩ := u
    obtain rfl : st = [] := hstu
    rfl

end Reader

namespace Audience

open Read Reader

variable {ν σ : Type} (A : Audience ν σ) (o : Options)
variable {s s' : Session ν (Attendance ν σ)}

section Body

variable {W : σ → σ → Prop} (hW : A.Respects W) (hc : o.comments = true → A.Overlooks W)

include hW in
theorem ended_tell_close {comments : Bool} (hs : Abreast W comments s s') :
    Ended comments (outcome ((A.reader o).tell .close) s) (outcome ((A.reader o).tell .close) s') := by
  obtain ⟨src, k, st, w⟩ := s
  obtain ⟨src', k', st', w'⟩ := s'
  obtain rfl : st = st' := hs.stack
  cases st with
  | nil => exact hs.ended _
  | cons slot st =>
    have h := A.alike_sendTo o hW slot (e := .close) rfl hs
    have htell (src : Source) (k : Cursor) (w : Attendance ν σ) :
        outcome ((A.reader o).tell .close) ⟨src, k, slot :: st, w⟩
          = outcome ((A.reader o).sendTo slot .close >>= fun _ => pure ()) ⟨src, k, slot :: st, w⟩ := rfl
    rw [htell, htell, outcome_bind, outcome_bind]
    dsimp only at h
    generalize outcome ((A.reader o).sendTo slot .close) ⟨src, k, slot :: st, w⟩ = y at h ⊢
    generalize outcome ((A.reader o).sendTo slot .close) ⟨src', k', slot :: st, w'⟩ = y' at h ⊢
    obtain ⟨res, t⟩ := y
    obtain ⟨res', t'⟩ := y'
    obtain ⟨hres, habreast, -⟩ := h
    obtain rfl : res = res' := hres
    cases res with
    | ok a => exact habreast.ended _
    | error f => exact habreast.ended _

include hW hc

theorem ended_readBody (n : Nat) (hs : Abreast W o.comments s s') (hn : s.source.lines.length < n) :
    Ended o.comments (outcome (A.reader o).readBody s) (outcome (A.reader o).readBody s') := by
  have g := governs_taking A.host_private (r := A.reader o)
  induction n generalizing s s' with
  | zero => omega
  | succ n ih =>
    by_cases hst : s.stack = []
    · -- with an empty stack the readings part, but end in the same way
      obtain ⟨t, ht, htst, htw⟩ := outcome_readBody_of_empty (r := A.reader o) A.host_private hst hs.whole
      obtain ⟨t', ht', htst', htw'⟩ :=
        outcome_readBody_of_empty (r := A.reader o) A.host_private (hs.stack ▸ hst) hs.whole'
      rw [ht, ht']
      refine ⟨rfl, by rw [htst, htst'], ?_, fun hoff => ?_⟩
      · simp only [htw, htw']
        exact hs.calls
      · simp only [htw]
        exact hs.silent hoff
    · rcases (A.alike_readLine o hW hc hs hst).cases with
        ⟨a, t, t', hl, hl', habreast, -⟩ | ⟨f, t, t', hl, hl', habreast, -⟩
      · have hlen := g.readLine_shorter trivial hl
        rw [outcome_readBody_of_ok A.host_private hl, outcome_readBody_of_ok A.host_private hl']
        exact ih habreast (by omega)
      · rw [g.outcome_readBody trivial ⟨s, .refl s, hl⟩, g.outcome_readBody trivial ⟨s', .refl s', hl'⟩]
        split
        · exact A.ended_tell_close o hW habreast
        · split
          · exact habreast.ended _
          · exact habreast.ended _

theorem abreast_openClass (hs : Abreast W o.comments s s') (hst : s.stack ≠ []) :
    (outcome (A.reader o).openClass s).1 = (outcome (A.reader o).openClass s').1 ∧
      Abreast W o.comments (outcome (A.reader o).openClass s).2 (outcome (A.reader o).openClass s').2 := by
  obtain ⟨h, hstack⟩ := A.alike_nextLine o hW hc hs hst
  unfold openClass
  rw [outcome_bind, outcome_bind, outcome_tryCatch, outcome_tryCatch, outcome_bind, outcome_bind]
  rcases h.cases with ⟨a, t, t', e, e', habreast, hcursor⟩ | ⟨f, t, t', e, e', habreast, -⟩
  · have hheader : Concur W o.comments true ((A.reader o).classHeader false >>= fun _ => pure ())
        ((A.reader o).classHeader false >>= fun _ => pure ()) :=
      ((A.remarkComparison o hW hc).classHeader false).bind fun _ => concur_onLine (onLine_pure _)
    rw [e] at hstack ⊢
    rw [e']
    obtain ⟨halike, -⟩ := hheader t t' habreast hcursor fun _ => by
      rw [show t.stack = s.stack from hstack]
      exact hst
    exact ⟨halike.result, halike.abreast⟩
  · rw [e, e']
    by_cases hf : f = .endOfSource
    · subst hf
      cases o.validate <;> exact ⟨rfl, habreast⟩
    · simp only [if_neg hf]
      exact ⟨rfl, habreast⟩

end Body

/-- Comments on lines of their own are inert. Let two inputs be there whose lines differ only in comments on lines of
their own, and let the audience go on as if it had not heard such comments, if they are delivered at all. Then both
readings end with the same result or the same fault, leave the same constructs open, and make the same calls, those
for comments on lines of their own apart; and if such comments are switched off, there is no call for one. -/
theorem visit_remarks_inert (h : o.comments = true → ∃ W, A.Overlooks W) {input input' : Input} {src src' : Source}
    (hp : input.isPresent = true) (hp' : input'.isPresent = true) (hsrc : input.source = .ok src)
    (hsrc' : input'.source = .ok src') (hstatements : src.statements = src'.statements) (root : Option ν)
    (q : Source) (k : Cursor) (st : List (Slot ν)) (w : σ) :
    Ended o.comments (outcome ((A.reader o).visit input root) ⟨q, k, st, ⟨w, []⟩⟩)
      (outcome ((A.reader o).visit input' root) ⟨q, k, st, ⟨w, []⟩⟩) := by
  obtain ⟨W, hW, hc⟩ : ∃ W, A.Respects W ∧ (o.comments = true → A.Overlooks W) := by
    cases hcomments : o.comments with
    | false => exact ⟨Eq, A.respects_eq, fun htrue => absurd htrue Bool.false_ne_true⟩
    | true =>
      obtain ⟨W, hW⟩ := h hcomments
      exact ⟨W, hW.toRespects, fun _ => hW⟩
  cases root with
  | none => exact ⟨rfl, rfl, rfl, fun _ _ hmem => absurd hmem not_mem_nil⟩
  | some n =>
    cases hk : o.knownPolicy with
    | false =>
      have hrefuse (input : Input) (src : Source) (hp : input.isPresent = true) (hsrc : input.source = .ok src) :
          outcome ((A.reader o).visit input (some n)) ⟨q, k, st, ⟨w, []⟩⟩
            = (.error (.unknownPolicy o.policy), ⟨q, k, st, ⟨w, []⟩⟩) := by
        simp only [visit, hp, hsrc, hk]
        rfl
      rw [hrefuse input src hp hsrc, hrefuse input' src' hp' hsrc']
      exact ⟨rfl, rfl, rfl, fun _ _ hmem => absurd hmem not_mem_nil⟩
    | true =>
      have hs : Abreast W o.comments (⟨src, k, .node n :: st, ⟨w, []⟩⟩ : Session ν (Attendance ν σ))
          ⟨src', k, .node n :: st, ⟨w, []⟩⟩ :=
        ⟨hstatements, Input.empty_notMem_source hsrc, Input.empty_notMem_source hsrc', rfl, hW.equivalence.refl w, rfl,
          fun _ _ hmem => absurd hmem not_mem_nil⟩
      rw [(A.reader o).outcome_visit hp hsrc hk, (A.reader o).outcome_visit hp' hsrc' hk]
      cases o.snippet with
      | true => exact A.ended_readBody o hW hc _ hs (Nat.lt_succ_self _)
      | false =>
        have hopen := A.abreast_openClass o hW hc hs (cons_ne_nil _ _)
        change Ended o.comments (outcome ((A.reader o).openClass >>= fun _ => (A.reader o).readBody) _)
          (outcome ((A.reader o).openClass >>= fun _ => (A.reader o).readBody) _)
        rw [outcome_bind, outcome_bind]
        generalize outcome (A.reader o).openClass _ = y at hopen ⊢
        generalize outcome (A.reader o).openClass _ = y' at hopen ⊢
        obtain ⟨res, t⟩ := y
        obtain ⟨res', t'⟩ := y'
        obtain ⟨hres, habreast⟩ := hopen
        obtain rfl : res = res' := hres
        cases res with
        | ok a => exact A.ended_readBody o hW hc _ habreast (Nat.lt_succ_self _)
        | error f => exact habreast.ended _

/-- The audience that has a node for every construct and does nothing else. -/
def plain : Audience Shape Unit where
  hears := Shape.hears
  hasShape n shape := n == shape
  answer _ e := pure ((Listener.opens e.verb).map (·.2))
  keep? := none

theorem plain_overlooks : plain.Overlooks Eq where
  toRespects := plain.respects_eq
  hears n := by cases n <;> rfl
  comment n d w := ⟨⟨_, rfl⟩, rfl⟩
  remark := nofun

/-- A comment inside the data of an array. -/
theorem visit_remark_in_payload :
    let front := ".class public LA;\n.method public a()V\n.array-data 4\n1\n"
    let back := "2\n.end array-data\n.end method\n"
    Ended true (outcome ((plain.reader { Options.standard with comments := true }).visit
        (.text (front ++ (("  # two" ++ "\n") ++ back))) (some .classDef)) ⟨⟨[]⟩, .start, [], ⟨(), []⟩⟩)
      (outcome ((plain.reader { Options.standard with comments := true }).visit
        (.text (front ++ back)) (some .classDef)) ⟨⟨[]⟩, .start, [], ⟨(), []⟩⟩) := by
  intro front back
  refine plain.visit_remarks_inert { Options.standard with comments := true } (fun _ => ⟨Eq, plain_overlooks⟩)
    rfl rfl rfl rfl ?_ _ _ _ _ _
  exact Source.statements_insert (.inr (by decide)) (by decide) (by decide) _

/-- A writer does not overlook comments: it writes a comment at the end of a line behind whatever it wrote last. In
front of the first field of a piece of a class there is nothing, and the reading ends in a fault, unless a comment on
a line of its own came before. -/
theorem visit_saved_by_remark :
    let read (text : String) := outcome ((Reader.mk ⟨true, true, true, "strict"⟩ (Desk.host none)).visit (.text text)
      (some (.writer .classDef 0 .classDef .nobody)))
      ⟨⟨[]⟩, .start, [], { Desk.empty [] with sheets := #[.blank 0] }⟩
    (Source.ofString "# c\n.field public a:I # x\n").statements = (Source.ofString ".field public a:I # x\n").statements ∧
      (read "# c\n.field public a:I # x\n").1 = .ok () ∧ (read ".field public a:I # x\n").1 = .error .noElement := by
  refine ⟨by decide +kernel, ?_, ?_⟩
  · decide +kernel
  · decide +kernel

end Audience

end Dalvik
