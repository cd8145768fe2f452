import Dalvik.Proofs.Framing
import Dalvik.Proofs.Loading
import Dalvik.Proofs.Unread

/-!
# Readings that follow one another

Two things are left behind by a reading and found by the next one: the stack of open constructs, and the
line at hand. Neither matters to it. What is on the stack stays below (`Read.Frames`), and the line at hand
is replaced before anything is asked of it, since no source has an empty line (`Read.Renews`). The main
statement is `Reader.visit_isolated`.
-/

namespace Dalvik

variable {ν σ α β : Type}
variable {x : Read ν σ α}

/-! ### The line at hand -/

/-- Two sessions differ at most in the line at hand, which a source without empty lines replaces. -/
def Session.Near (s s' : Session ν σ) : Prop :=
  s = s' ∨ (∃ k, s' = { s with cursor := k }) ∧ some "" ∉ s.source.lines

namespace Session.Near

variable {s s' : Session ν σ} (h : s.Near s')

include h

theorem source_eq : s'.source = s.source := by
  rcases h with rfl | ⟨⟨k, rfl⟩, -⟩ <;> rfl

theorem stack_eq : s'.stack = s.stack := by
  rcases h with rfl | ⟨⟨k, rfl⟩, -⟩ <;> rfl

theorem world_eq : s'.world = s.world := by
  rcases h with rfl | ⟨⟨k, rfl⟩, -⟩ <;> rfl

end Session.Near

namespace Read

/-- A step that moves to a new line first: the line at hand matters only where the step ends in a fault,
and then not for the fault. -/
def Renews (x : Read ν σ α) : Prop :=
  ∀ s s', s.Near s' → outcome x s = outcome x s' ∨
    ∃ f t t', outcome x s = (.error f, t) ∧ outcome x s' = (.error f, t') ∧ t.Near t'

/-- A step for which the line at hand does not matter. -/
def Blind (x : Read ν σ α) : Prop :=
  ∀ s s', s.Near s' → (outcome x s).1 = (outcome x s').1 ∧ (outcome x s).2.Near (outcome x s').2

theorem blind_pure (a : α) : Blind (pure a : Read ν σ α) := fun _ _ h => ⟨rfl, h⟩

theorem blind_throw (f : Fault) : Blind (throw f : Read ν σ α) := fun _ _ h => ⟨rfl, h⟩

theorem blind_ite {p : Prop} [Decidable p] {y : Read ν σ α} (hx : Blind x) (hy : Blind y) :
    Blind (if p then x else y) := by
  split
  · exact hx
  · exact hy

theorem Blind.bind {k : α → Read ν σ β} (hx : Blind x) (hk : ∀ a, Blind (k a)) : Blind (x >>= k) := by
  intro s s' hnear
  rw [outcome_bind, outcome_bind]
  have hx' := hx s s' hnear
  generalize outcome x s = o, outcome x s' = o' at hx' ⊢
  obtain ⟨res, t⟩ := o
  obtain ⟨res', t'⟩ := o'
  obtain ⟨rfl, hstates⟩ : res = res' ∧ t.Near t' := hx'
  cases res with
  | ok a => exact hk a t t' hstates
  | error f => exact ⟨rfl, hstates⟩

theorem InWorld.blind (h : InWorld x) : Blind x := by
  obtain ⟨act, hact⟩ := h
  rintro s s' (rfl | ⟨⟨k, rfl⟩, hne⟩)
  · exact ⟨rfl, .inl rfl⟩
  · rw [hact, hact]
    exact ⟨rfl, .inr ⟨⟨k, rfl⟩, hne⟩⟩

theorem renews_advance : Renews (advance : Read ν σ String) := by
  rintro s s' (rfl | ⟨⟨k, rfl⟩, hne⟩)
  · exact .inl rfl
  · obtain ⟨⟨lines⟩, cur, st, w⟩ := s
    rcases lines with _ | ⟨_ | l, rest⟩
    · exact .inr ⟨.endOfSource, _, _, rfl, rfl, .inr ⟨⟨k, rfl⟩, hne⟩⟩
    · exact .inr ⟨.undecodable, _, _, rfl, rfl, .inr ⟨⟨k, rfl⟩, fun hmem => hne (.tail _ hmem)⟩⟩
    · have hl : l ≠ "" := fun h => hne (h ▸ List.mem_cons_self)
      left
      rw [outcome_advance_some, outcome_advance_some, Cursor.reset, Cursor.reset,
        if_neg (by simpa using hl), if_neg (by simpa using hl)]
      obtain ⟨m, hm⟩ := Line.ofString_ok l
      rw [hm]
      rfl

theorem Renews.bind (hx : Renews x) (k : α → Read ν σ β) : Renews (x >>= k) := by
  intro s s' hnear
  rw [outcome_bind, outcome_bind]
  rcases hx s s' hnear with heq | ⟨f, t, t', ht, ht', hstates⟩
  · rw [heq]
    exact .inl rfl
  · rw [ht, ht']
    exact .inr ⟨f, t, t', rfl, rfl, hstates⟩

theorem Renews.tryCatch {k : Fault → Read ν σ α} (hx : Renews x) (hk : ∀ f, Blind (k f)) : Blind (tryCatch x k) := by
  intro s s' hnear
  rw [outcome_tryCatch, outcome_tryCatch]
  rcases hx s s' hnear with heq | ⟨f, t, t', ht, ht', hstates⟩
  · rw [heq]
    exact ⟨rfl, .inl rfl⟩
  · rw [ht, ht']
    exact hk f t t' hstates

end Read

namespace Reader

open Read

variable {r : Reader ν σ}

theorem renews_nextLine : Renews r.nextLine := by
  intro s s' hnear
  have h := (renews_advance.bind fun l => do
    if Line.isRemark l then
      r.remark
      r.nextLineWithin s.source.lines.length) s s' hnear
  have hs' : outcome r.nextLine s' = outcome (r.nextLineWithin (s'.source.lines.length + 1)) s' := rfl
  rw [hs', hnear.source_eq]
  exact h

theorem renews_readLine : Renews r.readLine :=
  renews_nextLine.bind _

theorem renews_readLines_succ (n : Nat) : Renews (r.readLines (n + 1)) :=
  renews_readLine.bind _

theorem blind_openClass : Blind r.openClass := by
  intro s s' hnear
  rw [openClass, outcome_bind, outcome_bind, outcome_tryCatch, outcome_tryCatch]
  rcases (renews_nextLine.bind fun _ => pure true) s s' hnear with heq | ⟨f, t, t', ht, ht', hstates⟩
  · rw [heq]
    exact ⟨rfl, .inl rfl⟩
  · -- no line was reached, so no header is read
    rw [ht, ht']
    dsimp only
    by_cases hf : f = .endOfSource
    · rw [if_pos hf]
      cases r.options.validate <;> exact ⟨rfl, hstates⟩
    · rw [if_neg hf]
      exact ⟨rfl, hstates⟩

variable (h : r.host.Private)

include h

theorem blind_tell (e : Event) : Blind (r.tell e) := by
  refine Blind.bind (Blind.bind ?_ fun slot => Blind.bind ?_ fun _ => ?_) fun _ => blind_pure _
  · rintro s s' (rfl | ⟨⟨k, rfl⟩, hne⟩)
    · exact ⟨rfl, .inl rfl⟩
    · obtain ⟨src, cur, st, w⟩ := s
      cases st with
      | nil => exact ⟨rfl, .inr ⟨⟨k, rfl⟩, hne⟩⟩
      | cons slot st => exact ⟨rfl, .inr ⟨⟨k, rfl⟩, hne⟩⟩
  · exact blind_ite (blind_pure _) (blind_throw _)
  · split
    · exact (h.deliver _ e).blind
    · exact blind_pure none

theorem blind_readBody : Blind r.readBody := by
  refine Renews.tryCatch ?_ fun f => blind_ite (blind_tell h _) (blind_ite (blind_throw _) (blind_throw f))
  intro s s' hnear
  have hs (u : Session ν σ) : outcome (do r.readLines ((← get).source.lines.length + 1)) u
      = outcome (r.readLines (u.source.lines.length + 1)) u := rfl
  rw [hs, hs, hnear.source_eq]
  exact renews_readLines_succ _ s s' hnear

end Reader

/-! ### Sources have no empty lines -/

theorem Source.nil_notMem_cutLines (isEnd : α → Bool) (line xs : List α) : [] ∉ cutLines isEnd line xs := by
  induction xs generalizing line with
  | nil =>
    unfold cutLines
    split
    · exact List.not_mem_nil
    · simp_all
  | cons x xs ih =>
    unfold cutLines
    split
    · simp [ih]
    · exact ih _

theorem Input.empty_notMem_source {input : Input} {src : Source} (h : input.source = .ok src) :
    some "" ∉ src.lines := by
  have text (s : String) : some "" ∉ (Source.ofString s).lines := by
    intro hmem
    obtain ⟨l, hl, hempty⟩ := List.mem_map.mp hmem
    obtain rfl : l = [] := by simpa using hempty
    exact Source.nil_notMem_cutLines _ _ _ hl
  cases input with
  | text s =>
    cases h
    exact text s
  | stream s =>
    cases h
    exact text s
  | octets b =>
    cases h
    intro hmem
    obtain ⟨l, hl, hempty⟩ := List.mem_map.mp hmem
    obtain rfl : l = [] := by
      unfold String.fromUTF8? at hempty
      split at hempty
      · have hbytes := congrArg (fun s => s.toByteArray.data.toList) (Option.some.inj hempty)
        simpa [String.fromUTF8] using hbytes
      · cases hempty
    exact Source.nil_notMem_cutLines _ _ _ hl
  | unreadable => cases h
  | other d => cases h

namespace Reader

open Read

variable {r : Reader ν σ}

/-- What earlier readings left on the stack and at hand does not matter to a reading. Unless the reading
from an empty stack closes its own root and then asks for one more construct, the reading from any stack and
any line at hand ends alike: with the same result or fault, in the same world of whoever listens, and with
the same constructs on top of what was there before. The world is any world, so it may hold all that was
ever heard, in order. -/
theorem visit_isolated (h : r.host.Private) (input : Input) (root : Option ν) (below : List (Slot ν))
    (src src' : Source) (k k' : Cursor) (w : σ) {res : Except Fault Unit} {t : Session ν σ}
    (hfresh : outcome (r.visit input root) ⟨src, k, [], w⟩ = (res, t))
    (hroot : ¬ (res = .error .noElement ∧ t.stack = [])) :
    ∃ src₂ k₂, outcome (r.visit input root) ⟨src', k', below, w⟩ = (res, ⟨src₂, k₂, t.stack ++ below, t.world⟩) := by
  cases root with
  | none =>
    cases hfresh
    exact ⟨src', k', rfl⟩
  | some n =>
    by_cases hbegin : input.isPresent = true ∧ (∃ lines, input.source = .ok lines) ∧ r.options.knownPolicy = true
    · obtain ⟨hp, ⟨lines, hl⟩, hk⟩ := hbegin
      have hframes : Frames ((unless r.options.snippet do r.openClass) >>= fun _ => r.readBody) :=
        (frames_ite (frames_pure _) (frames_openClass h)).bind fun _ => frames_readBody h
      have hblind : Blind ((unless r.options.snippet do r.openClass) >>= fun _ => r.readBody) :=
        (blind_ite (blind_pure _) blind_openClass).bind fun _ => blind_readBody h
      rw [r.outcome_visit hp hl hk] at hfresh
      rw [r.outcome_visit hp hl hk]
      -- the line at hand is changed first, then the stack
      have hnear := hblind ⟨lines, k, [.node n], w⟩ ⟨lines, k', [.node n], w⟩
        (.inr ⟨⟨k', rfl⟩, Input.empty_notMem_source hl⟩)
      have hframe := hframes below ⟨lines, k', [.node n], w⟩
      rw [hfresh] at hnear
      generalize outcome _ (⟨lines, k', [.node n], w⟩ : Session ν σ) = o at hnear hframe
      obtain ⟨res', t'⟩ := o
      obtain ⟨rfl, hnear⟩ : res = res' ∧ t.Near t' := hnear
      rw [Sinks, hnear.stack_eq] at hframe
      rw [← hnear.stack_eq, ← hnear.world_eq]
      exact ⟨t'.source, t'.cursor, hframe.resolve_left hroot⟩
    · obtain ⟨f, hf⟩ := r.outcome_visit_refused hbegin n
      rw [hf] at hfresh
      cases hfresh
      exact ⟨src', k', hf _⟩

end Reader

/-! ### Who listens -/

namespace Desk

theorem inWorld_reading (x : Act α) : Read.InWorld (reading x) :=
  ⟨x, fun s => outcome_reading x s.source s.cursor s.stack s.world⟩

theorem host_private (copy? : Option (String → Context → Act Unit)) : (host copy?).Private := by
  constructor
  · intro l e
    exact inWorld_reading (do pure (← l.deliver e).some?)
  · intro copy hcopy line slot
    obtain ⟨own, -, rfl⟩ := Option.map_eq_some_iff.mp hcopy
    exact inWorld_reading (own line (.ofSlot slot))

end Desk

theorem Store.loadHost_private : Store.loadHost.Private where
  deliver n e := ⟨n.deliver e, fun s => Store.outcome_reading _ s.source s.cursor s.stack s.world⟩
  copy _ hcopy := nomatch hcopy

namespace Reader

/-- A field that was left open by an earlier reading, and a line that was not read to its end, are found and
left alone by the reading of a class. -/
theorem visit_isolated_class :
    (outcome ((Desk.recording .standard true).visit (.text ".class public LA;\n.field public a:I\n")
        (some (.recorder .classDef "a")))
      ⟨⟨[none]⟩, ⟨none, ["left"]⟩, [.blank .field, .node (.recorder .classDef "b")], .empty []⟩).2.stack
        = [.node (.recorder .field "field#0"), .node (.recorder .classDef "a"), .blank .field,
            .node (.recorder .classDef "b")] := by
  have hstack : (outcome ((Desk.recording .standard true).visit
      (.text ".class public LA;\n.field public a:I\n") (some (.recorder .classDef "a")))
        ⟨⟨[]⟩, .start, [], .empty []⟩).2.stack
      = [.node (.recorder .field "field#0"), .node (.recorder .classDef "a")] := by decide +kernel
  rcases hfresh : outcome ((Desk.recording .standard true).visit
      (.text ".class public LA;\n.field public a:I\n") (some (.recorder .classDef "a")))
        ⟨⟨[]⟩, .start, [], .empty []⟩ with ⟨res, t⟩
  rw [hfresh] at hstack
  have hroot : ¬ (res = .error .noElement ∧ t.stack = []) := by
    rintro ⟨-, hempty⟩
    rw [hempty] at hstack
    cases hstack
  obtain ⟨src, k, h⟩ := @visit_isolated _ _ (Desk.recording .standard true) (Desk.host_private _)
    (.text ".class public LA;\n.field public a:I\n") (some (.recorder .classDef "a"))
    [.blank .field, .node (.recorder .classDef "b")] ⟨[]⟩ ⟨[none]⟩ .start ⟨none, ["left"]⟩ (.empty [])
    res t hfresh hroot
  rw [h, hstack]
  rfl

end Reader

end Dalvik
