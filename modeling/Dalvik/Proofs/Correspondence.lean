import Dalvik.Proofs.Conduct

/-!
# Readings that correspond

Two readers may listen through nodes of their own, keep worlds of their own and read sources of their own, and
still do the same line by line. What "the same" means is a relation between steps, together with a relation
between the results of the steps: words and numbers are equal, nodes and slots stand for each other. A
`Reader.Accord` is such a relation with the few facts that make it hold of every statement that opens and closes
nothing: it holds of words, of deliveries, of checks, and it is kept by combining steps. A `Reader.Correspondence`
holds of opening and closing as well, and so of all that a reader does on the current line
(`Reader.Correspondence.statement`).

The four loops of statements that run over several lines are apart (`Reader.Accord.Loops`). They are walked once, for
any relation that may know how many lines are left (`Reader.Accord.Rounds`). Moving on may depend on there being a
construct that is open, so the relation comes in two versions: the stronger one may assume that a construct is open,
and has to leave one open.
-/

namespace Dalvik

open Reader Read Slot Signature

variable {ν ν' σ σ' α α' β β' : Type}
variable {Q : β → β' → Prop} {x y : Read ν σ α} {x' : Read ν' σ' α} {p : Prop} {e : Event} {k : Bool → Read ν σ α}
  {k' : Bool → Read ν' σ' α}

/-- What statements tell: a field with its value, a label without colons in front, and no comment on a line of
its own. -/
def Event.Told : Event → Prop
  | comment _ => False
  | field _ _ _ value? => value?.isSome = true
  | label name => ∃ w, name = .text (labelName w)
  | _ => True

/-- Slots that stand for each other. -/
inductive Slot.Twin (Peer : ν → ν' → Prop) : Slot ν → Slot ν' → Prop
  | absent : Twin Peer .absent .absent
  | blank (shape : Shape) : Twin Peer (.blank shape) (.blank shape)
  | node {n : ν} {n' : ν'} (h : Peer n n') : Twin Peer (.node n) (.node n')

namespace Slot.Twin

variable {Peer : ν → ν' → Prop} {slot : Slot ν} {slot' : Slot ν'} {n? : Option ν} {n'? : Option ν'}

/-- Slots that stand for each other are absent together. -/
theorem isAbsent_eq (h : Twin Peer slot slot') : slot'.isAbsent = slot.isAbsent := by
  cases h <;> rfl

/-- Slots that stand for each other are muted together. -/
theorem isMuted_eq (h : Twin Peer slot slot') (shape : Shape) : slot'.isMuted shape = slot.isMuted shape := by
  cases h <;> rfl

/-- Nodes that stand for each other, or that are both missing, fill such slots. -/
theorem ofOption (h : Option.Rel Peer n? n'?) : Twin Peer (.ofOption n?) (.ofOption n'?) := by
  cases h with
  | some h => exact .node h
  | none => exact .absent

/-- A missing node may leave a blank. -/
theorem orBlank (shape : Shape) (h : Option.Rel Peer n? n'?) : Twin Peer (.orBlank shape n?) (.orBlank shape n'?) := by
  cases h with
  | some h => exact .node h
  | none => exact .blank shape

/-- Of two nodes that stand for each other, neither is missing or both are. -/
theorem isSome_eq (h : Option.Rel Peer n? n'?) : n'?.isSome = n?.isSome := by
  cases h <;> rfl

theorem isNone_eq (h : Option.Rel Peer n? n'?) : n'?.isNone = n?.isNone := by
  cases h <;> rfl

/-! Where nodes stand for themselves only, so do slots. -/

/-- A slot stands for itself. -/
theorem of_eq (slot : Slot ν) : Twin Eq slot slot := by
  cases slot with
  | absent => exact .absent
  | blank shape => exact .blank shape
  | node n => exact .node rfl

/-- Slots that stand for each other are then equal. -/
theorem eq {slot slot' : Slot ν} (h : Twin Eq slot slot') : slot = slot' := by
  cases h with
  | absent => rfl
  | blank shape => rfl
  | node h => rw [h]

/-- So are nodes that stand for each other. -/
theorem eq_of_rel {n? n'? : Option ν} (h : Option.Rel Eq n? n'?) : n? = n'? := by
  cases h with
  | some h => rw [h]
  | none => rfl

/-- A node stands for itself. -/
theorem rel_of_eq (n? : Option ν) : Option.Rel Eq n? n? := by
  cases n? with
  | none => exact .none
  | some n => exact .some rfl

end Slot.Twin

namespace Reader

open Read Dalvik.Text

variable {slot : Slot ν} {slot' : Slot ν'}

/-- A relation between the steps of two readers that all statements keep which open and close nothing. The truth value
says whether a construct is known to be open, and the relation next to it is the one between the results. -/
structure Accord (r : Reader ν σ) (r' : Reader ν' σ') where
  Peer : ν → ν' → Prop
  Agree : Bool → ∀ {α α' : Type}, (α → α' → Prop) → Read ν σ α → Read ν' σ' α' → Prop
  ret : ∀ {b : Bool} {α α' : Type} {R : α → α' → Prop} {a : α} {a' : α'}, R a a' → Agree b R (pure a) (pure a')
  throw : ∀ {b : Bool} {α α' : Type} {R : α → α' → Prop} {f : Fault}, f.ofReading = true → Agree b R (throw f) (throw f)
  onLine : ∀ {b : Bool} {α : Type} {x : Read ν σ α} {x' : Read ν' σ' α}, Parallel x x' → Agree b Eq x x'
  bind : ∀ {b : Bool} {α α' β β' : Type} {R : α → α' → Prop} {Q : β → β' → Prop} {x : Read ν σ α} {x' : Read ν' σ' α'}
    {k : α → Read ν σ β} {k' : α' → Read ν' σ' β'}, Agree b R x x' → (∀ a a', R a a' → Agree b Q (k a) (k' a')) →
      Agree b Q (x >>= k) (x' >>= k')
  atLineEnd : ∀ {b : Bool} {x : Read ν σ Unit} {x' : Read ν' σ' Unit}, Agree b Eq x x' →
    Agree b Eq (r.atLineEnd x) (r'.atLineEnd x')
  top_bind : ∀ {b : Bool} {α : Type} {k : Slot ν → Read ν σ α} {k' : Slot ν' → Read ν' σ' α},
    (∀ slot slot', Twin Peer slot slot' → Agree true Eq (k slot) (k' slot')) → Agree b Eq (top >>= k) (top >>= k')
  top : ∀ {b : Bool}, Agree b (Twin Peer) top top
  require : ∀ {b : Bool} {slot : Slot ν} {slot' : Slot ν'}, Twin Peer slot slot' → ∀ v,
    Agree b Eq (r.require slot v) (r'.require slot' v)
  tellTo : ∀ {b : Bool} {slot : Slot ν} {slot' : Slot ν'}, Twin Peer slot slot' → ∀ {e : Event}, e.Told →
    e.verb.nests = false → Agree b Eq (do let _ ← r.sendTo slot e) (do let _ ← r'.sendTo slot' e)
  copyLine : ∀ {b : Bool}, Agree b Eq r.copyLine r'.copyLine
  checkKeyword : ∀ {b : Bool} (w : String) (k : Keyword), Agree b Eq (r.checkKeyword w k) (r'.checkKeyword w k)
  checkDescriptor : ∀ {b : Bool} (w : String), Agree b Eq (r.checkDescriptor w) (r'.checkDescriptor w)
  checkCount : ∀ {b : Bool} (n : Nat),
    Agree b Eq (if n != 3 && r.options.validate then MonadExcept.throw (.localValues n) else pure ())
      (if n != 3 && r'.options.validate then MonadExcept.throw (.localValues n) else pure ())

namespace Accord

variable {r : Reader ν σ} {r' : Reader ν' σ'} (c : Accord r r') {b : Bool} {R : α → α' → Prop} (muted : Bool)

theorem pure (a : α) : c.Agree b Eq (pure a) (pure a) := c.ret rfl

/-- Both look at the same word. -/
theorem peekWord : c.Agree b Eq peekWord peekWord := c.onLine parallel_peekWord

/-- Both take the same word. -/
theorem nextWord : c.Agree b Eq nextWord nextWord := c.onLine parallel_nextWord

/-- Both halve a word in the same place. -/
theorem halves (sep w : String) : c.Agree b Eq (attempt (Text.halves sep w)) (attempt (Text.halves sep w)) :=
  c.onLine (parallel_halves sep w)

/-- Behind a step with equal results, what follows is compared for each result. -/
theorem step {k : α → Read ν σ β} {k' : α → Read ν' σ' β'} (hx : c.Agree b Eq x x') (hk : ∀ a, c.Agree b Q (k a) (k' a)) :
    c.Agree b Q (x >>= k) (x' >>= k') := by
  refine c.bind hx fun a a' ha => ?_
  rw [← ha]
  exact hk a

/-- Behind a fault nothing is compared. -/
theorem throw_bind {f : Fault} (hf : f.ofReading = true) (k : α → Read ν σ β) (k' : α' → Read ν' σ' β') :
    c.Agree b Q (MonadExcept.throw f >>= k) (MonadExcept.throw f >>= k') :=
  c.throw hf

/-- A test that comes out the same for both takes them the same way. -/
theorem ite [Decidable p] {x' y' : Read ν' σ' α'} (hx : c.Agree b R x x') (hy : c.Agree b R y y') :
    c.Agree b R (if p then x else y) (if p then x' else y') := by
  split
  · exact hx
  · exact hy

/-- Both check the keyword in front of a statement. -/
theorem passKeyword (k : Keyword) : c.Agree b Eq (r.passKeyword k) (r'.passKeyword k) :=
  c.step c.nextWord fun w => c.checkKeyword w k

/-- Methods are muted for both or for neither. -/
theorem methodMuted : c.Agree b Eq methodMuted methodMuted :=
  c.bind c.top fun _ _ h => c.ret (h.isMuted_eq _).symm

/-- So are annotations. -/
theorem annotMuted : c.Agree b Eq annotMuted annotMuted :=
  c.bind c.top fun _ _ h => c.ret (h.isMuted_eq _).symm

/-- What is told to the innermost constructs, which stand for each other, agrees. -/
theorem tell (he : e.Told) (hn : e.verb.nests = false) : c.Agree b Eq (r.tell e) (r'.tell e) := by
  unfold Reader.tell Reader.send
  rw [bind_assoc, bind_assoc]
  exact c.bind c.top fun _ _ h => c.tellTo h he hn

/-- The comment behind a statement goes to the innermost constructs, unless they are absent. -/
theorem publishComment : c.Agree b Eq r.publishComment r'.publishComment := by
  refine c.step (c.onLine parallel_currentLine) fun l => ?_
  split
  · exact c.pure _
  · refine c.bind c.top fun slot slot' h => ?_
    rw [h.isAbsent_eq]
    exact c.ite (c.pure _) (c.tellTo h trivial rfl)

/-- Most statements end so: something is told, and the comment behind it. -/
theorem tellWithComment (he : e.Told) (hn : e.verb.nests = false) :
    c.Agree b Eq (r.tell e >>= fun _ => r.publishComment) (r'.tell e >>= fun _ => r'.publishComment) :=
  c.step (c.tell he hn) fun _ => c.publishComment

/-! ### Details of classes -/

/-- Without a class the line is copied, otherwise the class is told. -/
theorem tellOrCopy (he : e.Told) (hn : e.verb.nests = false) : c.Agree b Eq (r.tellOrCopy e) (r'.tellOrCopy e) := by
  refine c.bind c.top fun slot slot' h => ?_
  rw [h.isAbsent_eq]
  exact c.ite c.copyLine (c.tell he hn)

/-- The name of a super class must be a descriptor. -/
theorem superClass : c.Agree b Eq r.superClass r'.superClass := by
  refine c.atLineEnd (c.step (c.passKeyword _) fun _ => c.step c.peekWord fun name => ?_)
  split
  · exact c.step (c.tellOrCopy trivial rfl) fun _ => c.publishComment
  · exact c.throw_bind rfl _ _

/-- Any word names a source file. -/
theorem sourceFile : c.Agree b Eq r.sourceFile r'.sourceFile :=
  c.atLineEnd (c.step (c.passKeyword _) fun _ => c.step c.peekWord fun _ =>
    c.step (c.tellOrCopy trivial rfl) fun _ => c.publishComment)

/-- Without a class an interface is copied before its name is looked at. -/
theorem interface : c.Agree b Eq r.interface r'.interface := by
  refine c.step c.nextWord fun _ => c.bind c.top fun slot slot' h => ?_
  rw [h.isAbsent_eq]
  exact c.ite c.copyLine (c.step c.peekWord fun name => c.step (c.checkDescriptor name) fun _ =>
    c.tellWithComment trivial rfl)

/-- The debug mode must be a number where a class is told. -/
theorem debugMode : c.Agree b Eq r.debugMode r'.debugMode := by
  refine c.step (c.passKeyword _) fun _ => c.step c.peekWord fun word => c.bind c.top fun slot slot' h => ?_
  rw [h.isAbsent_eq]
  split
  · exact c.step c.copyLine fun _ => c.publishComment
  · refine c.step (c.require h _) fun _ => ?_
    split
    · exact c.tellWithComment trivial rfl
    · exact c.throw_bind rfl _ _

/-- A constant is a name with its owner and its type. -/
theorem enumConst : c.Agree b Eq r.enumConst r'.enumConst := by
  refine c.atLineEnd (c.step (c.onLine parallel_cleaned) fun text => c.step (c.passKeyword _) fun _ =>
    c.step c.peekWord fun word => c.step (c.halves _ _) fun p => ?_)
  refine c.step (c.checkDescriptor p.1) fun _ => c.step (c.halves _ _) fun q => ?_
  refine c.step (c.checkDescriptor q.2) fun _ => c.bind c.top fun slot slot' h => ?_
  rw [h.isMuted_eq]
  exact c.ite c.copyLine (c.tell trivial rfl)

/-! ### Statements on one line -/

/-- In a muted method both copy the line. -/
theorem unlessMuted {x : Read ν σ Unit} {x' : Read ν' σ' Unit} (h : c.Agree b Eq x x') :
    c.Agree b Eq (r.unlessMuted x) (r'.unlessMuted x') :=
  c.step c.methodMuted fun _ => c.ite c.copyLine h

/-- The statements that end in a number. -/
theorem numbered (k : Keyword) (v : Verb) {event : Datum → Event}
    (hevent : ∀ d, (event d).Told ∧ (event d).verb.nests = false) :
    c.Agree b Eq (r.numbered k v event) (r'.numbered k v event) := by
  refine c.bind c.top fun slot slot' h => ?_
  dsimp only
  rw [h.isMuted_eq]
  split
  · exact c.step (c.passKeyword k) fun _ => c.step c.peekWord fun _ => c.copyLine
  · refine c.step (c.require h v) fun _ => c.step (c.passKeyword k) fun _ => c.step c.peekWord fun word => ?_
    split
    · exact c.tellWithComment (hevent _).1 (hevent _).2
    · exact c.throw_bind rfl _ _

/-- A label is told without the colons in front. -/
theorem label : c.Agree b Eq r.label r'.label :=
  c.step c.peekWord fun word => c.unlessMuted (c.tellWithComment ⟨word, rfl⟩ rfl)

/-- A parameter may come without a name. -/
theorem parameter : c.Agree b Eq r.parameter r'.parameter := by
  refine c.unlessMuted (c.step c.nextWord fun _ => c.step c.nextWord fun register =>
    c.step (c.onLine parallel_cleaned) fun text => ?_)
  split
  · exact c.step c.peekWord fun _ => c.tellWithComment trivial rfl
  · exact c.step (c.pure _) fun _ => c.tellWithComment trivial rfl

/-- A handler names the type that it catches. -/
theorem catching : c.Agree b Eq r.catching r'.catching :=
  c.unlessMuted (c.step c.nextWord fun _ => c.step c.peekWord fun type => c.step (c.checkDescriptor type) fun _ =>
    c.step (c.onLine parallel_handlerLabels) fun _ => c.tellWithComment trivial rfl)

theorem catchingAll : c.Agree b Eq r.catchingAll r'.catchingAll :=
  c.unlessMuted (c.step (c.onLine parallel_handlerLabels) fun _ => c.tellWithComment trivial rfl)

/-- The forms of an instruction are told apart by its name. -/
theorem instruction : c.Agree b Eq r.instruction r'.instruction := by
  refine c.unlessMuted (c.step c.nextWord fun name => ?_)
  split
  · exact c.step (c.onLine parallel_braced) fun _ => c.step (c.onLine parallel_lastWord) fun _ =>
      c.step (c.halves _ _) fun p => c.step (c.checkDescriptor p.1) fun _ => c.tellWithComment trivial rfl
  · split
    · exact c.step (c.onLine (parallel_operands _)) fun _ => c.tellWithComment trivial rfl
    · split
      · exact c.step c.peekWord fun _ => c.tellWithComment trivial rfl
      · exact c.step (c.onLine (parallel_operands _)) fun _ => c.tellWithComment trivial rfl

/-- The number of operands is checked in front of what follows. -/
theorem checkCount_bind (n : Nat) {k : PUnit → Read ν σ α} {k' : PUnit → Read ν' σ' α'}
    (hk : ∀ u, c.Agree b R (k u) (k' u)) :
    c.Agree b R (if n != 3 && r.options.validate then MonadExcept.throw (.localValues n) >>= k else k ⟨⟩)
      (if n != 3 && r'.options.validate then MonadExcept.throw (.localValues n) >>= k' else k' ⟨⟩) := by
  have apart {μ τ γ : Type} (p : Bool) (j : PUnit → Read μ τ γ) :
      (if p then MonadExcept.throw (.localValues n) >>= j else j ⟨⟩)
        = (if p then MonadExcept.throw (.localValues n) else Pure.pure () : Read μ τ PUnit) >>= j := by
    cases p <;> simp
  rw [apart, apart]
  exact c.step (c.checkCount n) hk

/-- A local variable has a register, a name with its type, and a full type. -/
theorem localVar : c.Agree b Eq r.localVar r'.localVar := by
  refine c.unlessMuted (c.step c.nextWord fun _ => c.step (c.onLine (parallel_operands _)) fun values => ?_)
  refine c.checkCount_bind values.length fun _ => ?_
  split
  · exact c.throw rfl
  · exact c.throw rfl
  · refine c.step (c.halves _ _) fun p => ?_
    dsimp only
    split
    · exact c.throw rfl
    · exact c.step (c.checkDescriptor _) fun _ => c.step (c.checkDescriptor _) fun _ => c.tellWithComment trivial rfl

theorem prologue : c.Agree b Eq r.prologue r'.prologue :=
  c.unlessMuted (c.tellWithComment trivial rfl)

theorem restart : c.Agree b Eq r.restart r'.restart :=
  c.unlessMuted (c.step (c.onLine parallel_lastWord) fun _ => c.tellWithComment trivial rfl)

/-! ### Statements over several lines

They look at the innermost construct before they take a line, so one is open. -/

/-- A line of a payload is copied where the method is muted. -/
theorem payloadLine : c.Agree b Eq (r.payloadLine muted) (r'.payloadLine muted) :=
  c.step c.publishComment fun _ => c.ite c.copyLine (c.pure _)

/-- The line on which a payload starts is copied in a muted method. -/
theorem payloadHead : c.Agree b Eq (r.payloadHead muted) (r'.payloadHead muted) := by
  unfold Reader.payloadHead
  split
  · exact c.step c.copyLine fun _ => c.publishComment
  · exact c.publishComment

section

variable (hk : ∀ muted, c.Agree true Eq (k muted) (k' muted))

include hk

/-- Where it was asked whether the method is muted, a construct is known to be open. -/
theorem methodMuted_bind : c.Agree b Eq (Reader.methodMuted >>= k) (Reader.methodMuted >>= k') := by
  have h : c.Agree b Eq (Read.top >>= fun slot => k (slot.isMuted .method))
      (Read.top >>= fun slot => k' (slot.isMuted .method)) := c.top_bind fun slot slot' h => by
    rw [h.isMuted_eq]
    exact hk _
  simpa [Reader.methodMuted] using h

/-- Likewise for the annotation. -/
theorem annotMuted_bind : c.Agree b Eq (Reader.annotMuted >>= k) (Reader.annotMuted >>= k') := by
  have h : c.Agree b Eq (Read.top >>= fun slot => k (slot.isMuted .annot))
      (Read.top >>= fun slot => k' (slot.isMuted .annot)) := c.top_bind fun slot slot' h => by
    rw [h.isMuted_eq]
    exact hk _
  simpa [Reader.annotMuted] using h

end

/-- A list of values is told unless the annotation is muted. -/
theorem tellArray (name : String) (values : List String) : c.Agree b Eq
    (do unless ← Reader.annotMuted do r.tell (.array (.text name) (.texts values)))
    (do unless ← Reader.annotMuted do r'.tell (.array (.text name) (.texts values))) :=
  c.step c.annotMuted fun _ => c.ite (c.pure _) (c.tell trivial rfl)

/-- The loops over lines agree, whatever agrees behind them. -/
structure Loops : Prop where
  packedLabels : ∀ (muted : Bool) {t : List String → Read ν σ Unit} {t' : List String → Read ν' σ' Unit},
    (∀ labels, c.Agree true Eq (t labels) (t' labels)) →
      c.Agree true Eq (do r.nextLine; t (← r.packedLabels muted ((← payloadBound) + 1)))
        (do r'.nextLine; t' (← r'.packedLabels muted ((← payloadBound) + 1)))
  arrayValues : ∀ (muted : Bool) {t : List Datum → Read ν σ Unit} {t' : List Datum → Read ν' σ' Unit},
    (∀ values, c.Agree true Eq (t values) (t' values)) →
      c.Agree true Eq (do t (← r.arrayValues muted (← payloadBound))) (do t' (← r'.arrayValues muted (← payloadBound)))
  sparseBranches : ∀ (muted : Bool) {t : List (String × String) → Read ν σ Unit}
      {t' : List (String × String) → Read ν' σ' Unit}, (∀ branches, c.Agree true Eq (t branches) (t' branches)) →
    c.Agree true Eq (do t (← r.sparseBranches muted (← payloadBound) []))
      (do t' (← r'.sparseBranches muted (← payloadBound) []))
  listedValues : ∀ (muted : Bool) {t : List String → Read ν σ Unit} {t' : List String → Read ν' σ' Unit},
    (∀ values, c.Agree true Eq (t values) (t' values)) →
      c.Agree true Eq (do r.nextLine; t (← r.listedValues muted ((← payloadBound) + 1)))
        (do r'.nextLine; t' (← r'.listedValues muted ((← payloadBound) + 1)))

/-- A relation between steps from sessions that have fewer lines left than two bounds. -/
structure Rounds where
  Below : Nat → Nat → ∀ {α : Type}, Read ν σ α → Read ν' σ' α → Prop
  zero : ∀ {α : Type}, Below 0 0 (MonadExcept.throw .endOfSource : Read ν σ α) (MonadExcept.throw .endOfSource)
  left : ∀ {m : Nat} {α : Type} {x : Read ν σ α} {x' : Read ν' σ' α}, Below 0 (m + 1) x x'
  right : ∀ {n : Nat} {α : Type} {x : Read ν σ α} {x' : Read ν' σ' α}, Below (n + 1) 0 x x'
  of_agree : ∀ {n m : Nat} {α : Type} {x : Read ν σ α} {x' : Read ν' σ' α}, c.Agree true Eq x x' → Below n m x x'
  bind : ∀ {n m : Nat} {α β : Type} {x : Read ν σ α} {x' : Read ν' σ' α} {k : α → Read ν σ β} {k' : α → Read ν' σ' β},
    Below n m x x' → (∀ a, Below n m (k a) (k' a)) → Below n m (x >>= k) (x' >>= k')
  nextLine : ∀ {n m : Nat} {α : Type} {k : PUnit → Read ν σ α} {k' : PUnit → Read ν' σ' α},
    Below n m (k ⟨⟩) (k' ⟨⟩) → Below (n + 1) (m + 1) (r.nextLine >>= k) (r'.nextLine >>= k')

variable {c}

namespace Rounds

variable (R : c.Rounds) {n m : Nat}

/-- What agrees with a construct open goes in front of what is bounded. -/
theorem step {k : α → Read ν σ β} {k' : α → Read ν' σ' β} (hx : c.Agree true Eq x x')
    (hk : ∀ a, R.Below n m (k a) (k' a)) : R.Below n m (x >>= k) (x' >>= k') :=
  R.bind (R.of_agree hx) hk

theorem ite [Decidable p] {y' : Read ν' σ' α} (hx : R.Below n m x x') (hy : R.Below n m y y') :
    R.Below n m (if p then x else y) (if p then x' else y') := by
  split
  · exact hx
  · exact hy

theorem ret (a : α) : R.Below n m (Pure.pure a) (Pure.pure a) := R.of_agree (c.pure a)

variable (muted : Bool) (n m : Nat)

/-- The induction is on both bounds; where only one of them is used up, nothing is compared. -/
theorem packedLabels : R.Below n m (r.packedLabels muted n) (r'.packedLabels muted m) := by
  induction n generalizing m with
  | zero => cases m with
    | zero => exact R.zero
    | succ m => exact R.left
  | succ n ih => cases m with
    | zero => exact R.right
    | succ m =>
      refine R.step c.nextWord fun word => R.step (c.payloadLine muted) fun _ =>
        R.step (c.onLine (parallel_firstChar word)) fun ch => R.ite ?_ (R.ite (R.ret _) (R.nextLine (ih m)))
      exact R.nextLine (R.bind (ih m) fun _ => R.ret _)

/-- Each round starts on a new line. -/
theorem arrayValues : R.Below n m (r.arrayValues muted n) (r'.arrayValues muted m) := by
  induction n generalizing m with
  | zero => cases m with
    | zero => exact R.zero
    | succ m => exact R.left
  | succ n ih => cases m with
    | zero => exact R.right
    | succ m =>
      refine R.nextLine (R.step c.peekWord fun word => R.step (c.payloadLine muted) fun _ =>
        R.step (c.onLine (parallel_isPayloadEnd word)) fun _ => R.ite (R.ret _) ?_)
      exact R.step (c.onLine (parallel_attempt (Literal.parse_fault _))) fun _ => R.bind (ih m) fun _ => R.ret _

/-- The branches so far are handed on from round to round. -/
theorem sparseBranches (branches : List (String × String)) :
    R.Below n m (r.sparseBranches muted n branches) (r'.sparseBranches muted m branches) := by
  induction n generalizing m branches with
  | zero => cases m with
    | zero => exact R.zero
    | succ m => exact R.left
  | succ n ih => cases m with
    | zero => exact R.right
    | succ m =>
      refine R.nextLine (R.step c.peekWord fun key => R.step (c.payloadLine muted) fun _ =>
        R.step (c.onLine (parallel_isPayloadEnd key)) fun _ => R.ite (R.ret _) ?_)
      exact R.step (c.onLine parallel_lastWord) fun _ => ih m _

/-- A list of values ends on the line with its closing brace. -/
theorem listedValues : R.Below n m (r.listedValues muted n) (r'.listedValues muted m) := by
  induction n generalizing m with
  | zero => cases m with
    | zero => exact R.zero
    | succ m => exact R.left
  | succ n ih => cases m with
    | zero => exact R.right
    | succ m =>
      have rest (value : String) : R.Below (n + 1) (m + 1) (do r.nextLine; Pure.pure (value :: (← r.listedValues muted n)))
          (do r'.nextLine; Pure.pure (value :: (← r'.listedValues muted m))) :=
        R.nextLine (R.bind (ih m) fun _ => R.ret _)
      refine R.step (c.onLine parallel_cleaned) fun text => R.step (c.onLine parallel_cleaned) fun _ => ?_
      split
      · refine R.ite (R.ret _) (R.step c.peekWord fun word => R.step c.publishComment fun _ => ?_)
        split
        · exact R.step c.copyLine fun _ => rest _
        · exact rest _
      · exact R.of_agree (c.throw rfl)

end Rounds

section Loops

variable (hl : c.Loops)

include hl

/-- The payloads: a head, a loop, and what is told at its end. -/
theorem packedSwitch : c.Agree b Eq r.packedSwitch r'.packedSwitch :=
  c.methodMuted_bind fun muted => c.step c.nextWord fun _ => c.step c.peekWord fun _ =>
    c.step (c.payloadHead muted) fun _ => hl.packedLabels muted fun _ => c.step c.methodMuted fun _ =>
      c.ite (c.pure _) (c.tell trivial rfl)

theorem arrayData : c.Agree b Eq r.arrayData r'.arrayData :=
  c.methodMuted_bind fun muted => c.step c.nextWord fun _ => c.step c.peekWord fun _ =>
    c.step (c.payloadHead muted) fun _ => hl.arrayValues muted fun _ => c.step c.methodMuted fun _ =>
      c.ite (c.pure _) (c.tell trivial rfl)

theorem sparseSwitch : c.Agree b Eq r.sparseSwitch r'.sparseSwitch :=
  c.methodMuted_bind fun muted => c.step c.nextWord fun _ => c.step (c.payloadHead muted) fun _ =>
    hl.sparseBranches muted fun _ => c.step c.methodMuted fun _ => c.ite (c.pure _) (c.tellWithComment trivial rfl)

/-- A value of an annotation may be a word, or a list on one line or on several. -/
theorem plainValue (name : String) : c.Agree b Eq (r.plainValue name) (r'.plainValue name) := by
  refine c.annotMuted_bind fun muted => c.step (c.onLine parallel_cleaned) fun text => ?_
  have rest : c.Agree true Eq (if text.contains '{' then do
        let values ← if text.contains '}' then braced else do
          r.publishComment
          r.nextLine
          r.listedValues muted ((← payloadBound) + 1)
        unless ← Reader.annotMuted do r.tell (.array (.text name) (.texts values))
      else do
        unless ← Reader.annotMuted do
          let value ← Read.peekWord
          r.tell (.value (.text name) (.text value)))
      (if text.contains '{' then do
        let values ← if text.contains '}' then braced else do
          r'.publishComment
          r'.nextLine
          r'.listedValues muted ((← payloadBound) + 1)
        unless ← Reader.annotMuted do r'.tell (.array (.text name) (.texts values))
      else do
        unless ← Reader.annotMuted do
          let value ← Read.peekWord
          r'.tell (.value (.text name) (.text value))) := by
    refine c.ite ?_ ?_
    · split
      · exact c.step (c.onLine parallel_braced) (c.tellArray name)
      · exact c.step c.publishComment fun _ => hl.listedValues muted (c.tellArray name)
    · exact c.step c.annotMuted fun _ => c.ite (c.pure _) (c.step c.peekWord fun _ => c.tell trivial rfl)
  dsimp only
  split
  · exact c.step c.copyLine fun _ => rest
  · exact rest

/-- All directives that open and close nothing agree, one lemma for each. -/
theorem simpleDirective {d : Directive} (hd : d.nests = false) :
    c.Agree b Eq (r.simpleDirective d) (r'.simpleDirective d) := by
  cases d with
  | superClass => exact c.superClass
  | sourceFile => exact c.sourceFile
  | field | close | method | annot | subAnnot => cases hd
  | enumConst => exact c.enumConst
  | debug => exact c.debugMode
  | parameter => exact c.parameter
  | line | registers | locals => exact c.numbered _ _ fun _ => ⟨trivial, rfl⟩
  | label => exact c.label
  | catching => exact c.catching
  | catchingAll => exact c.catchingAll
  | instruction => exact c.instruction
  | packedSwitch => exact packedSwitch hl
  | arrayData => exact arrayData hl
  | localVar => exact c.localVar
  | sparseSwitch => exact sparseSwitch hl
  | prologue => exact c.prologue
  | restart => exact c.restart
  | number | value | directive => exact c.throw rfl

end Loops

end Accord

/-! ### Opening and closing -/

/-- A relation between the steps of two readers that all they do on a line keeps. -/
structure Correspondence (r : Reader ν σ) (r' : Reader ν' σ') extends Accord r r' where
  atLineEndNode : ∀ {b : Bool} {x : Read ν σ (Option ν)} {x' : Read ν' σ' (Option ν')},
    Agree b (Option.Rel Peer) x x' → Agree b (Option.Rel Peer) (r.atLineEnd x) (r'.atLineEnd x')
  push : ∀ {b : Bool} {slot : Slot ν} {slot' : Slot ν'}, Twin Peer slot slot' → Agree b Eq (push slot) (push slot')
  pop : Agree false (Twin Peer) pop pop
  hasShape_eq : ∀ {n : ν} {n' : ν'}, Peer n n' → ∀ shape, r'.host.hasShape n' shape = r.host.hasShape n shape
  sendTo : ∀ {b : Bool} {slot : Slot ν} {slot' : Slot ν'}, Twin Peer slot slot' → ∀ {e : Event}, e.Told →
    Agree b (Option.Rel Peer) (r.sendTo slot e) (r'.sendTo slot' e)
  tellTo ht _ he _ := bind (sendTo ht he) fun _ _ _ => ret rfl

namespace Correspondence

variable {r : Reader ν σ} {r' : Reader ν' σ'} (c : Correspondence r r') {b : Bool}

/-- The innermost constructs answer what they are sent with nodes that stand for each other. -/
theorem send (he : e.Told) : c.Agree b (Option.Rel c.Peer) (r.send e) (r'.send e) :=
  c.bind c.top fun _ _ h => c.sendTo h he

theorem tellEnd : c.Agree b Eq (r.tell .close) (r'.tell .close) :=
  c.bind (c.send trivial) fun _ _ _ => c.pure _

/-- A class is opened by nodes that stand for each other. -/
theorem classHeader (inner : Bool) : c.Agree b (Option.Rel c.Peer) (r.classHeader inner) (r'.classHeader inner) :=
  c.atLineEndNode (c.step (c.passKeyword _) fun _ => c.step (c.onLine parallel_accessFlags) fun _ =>
    c.step c.peekWord fun name => c.step (c.checkDescriptor name) fun _ =>
      c.bind (c.send (by cases inner <;> trivial)) fun _ _ hnode => c.step c.publishComment fun _ => c.ret hnode)

/-- A field is opened, and left blank where it is not heard. -/
theorem field : c.Agree b Eq r.field r'.field := by
  refine c.atLineEnd (c.step (c.passKeyword _) fun _ => c.step (c.onLine parallel_accessFlags) fun flags =>
    c.step c.nextWord fun word => c.step (c.halves _ _) fun p => ?_)
  refine c.step (c.checkDescriptor p.2) fun _ => c.step (c.onLine parallel_hasWord) fun more => ?_
  have rest (value : Datum) : c.Agree b Eq (do
      if (← top).isAbsent then
        Read.push (.blank .field)
        r.copyLine
      else
        let node? ← r.send (.field (.text (plainName p.1)) flags (.text p.2) (some value))
        r.publishComment
        Read.push (.orBlank .field node?)
        if node?.isNone then r.copyLine) (do
      if (← top).isAbsent then
        Read.push (.blank .field)
        r'.copyLine
      else
        let node? ← r'.send (.field (.text (plainName p.1)) flags (.text p.2) (some value))
        r'.publishComment
        Read.push (.orBlank .field node?)
        if node?.isNone then r'.copyLine) := by
    refine c.bind c.top fun slot slot' h => ?_
    rw [h.isAbsent_eq]
    refine c.ite (c.step (c.push (.blank _)) fun _ => c.copyLine) ?_
    refine c.bind (c.send rfl) fun node? node'? hnode => c.step c.publishComment fun _ =>
      c.step (c.push (.orBlank _ hnode)) fun _ => ?_
    rw [Twin.isNone_eq hnode]
    exact c.ite c.copyLine (c.pure _)
  split
  · exact c.step (c.onLine parallel_lastWord) fun _ => rest _
  · exact rest _

/-- A construct is opened, and its line copied where it is not heard. -/
theorem openWith (h : Twin c.Peer slot slot') (heard : Bool) :
    c.Agree b Eq (r.openWith slot heard) (r'.openWith slot' heard) :=
  c.step (c.push h) fun _ => c.step c.publishComment fun _ => c.ite (c.pure _) c.copyLine

/-- A construct whose node is missing is opened blank. -/
theorem openNode {node? : Option ν} {node'? : Option ν'} (shape : Shape) (h : Option.Rel c.Peer node? node'?) :
    c.Agree b Eq (r.openWith (.orBlank shape node?) node?.isSome)
      (r'.openWith (.orBlank shape node'?) node'?.isSome) := by
  rw [Twin.isSome_eq h]
  exact c.openWith (.orBlank shape h) _

/-- A method is opened by its signature, once its parts are known to be well formed. -/
theorem method : c.Agree b Eq r.method r'.method := by
  refine c.atLineEnd (c.step (c.passKeyword _) fun _ => c.step (c.onLine parallel_accessFlags) fun flags =>
    c.step c.peekWord fun word => c.step (c.onLine (parallel_attempt (Descriptor.ofString_fault _))) fun type => ?_)
  split
  · exact c.throw rfl
  · refine c.bind c.top fun slot slot' h => ?_
    rw [h.isAbsent_eq]
    split
    · exact c.openNode .method .none
    · exact c.step (c.require h _) fun _ => c.step (c.onLine (parallel_attempt (name_fault _))) fun _ =>
        c.step (c.onLine (parallel_attempt (parameterTypes_fault _))) fun _ =>
          c.step (c.onLine (parallel_attempt (returnType_fault _))) fun _ =>
            c.bind (c.send trivial) fun _ _ hnode => c.openNode _ hnode

/-- An annotation is opened blank where nobody listens. -/
theorem annot : c.Agree b Eq r.annot r'.annot := by
  refine c.atLineEnd (c.step (c.passKeyword _) fun _ => c.step (c.onLine parallel_accessFlags) fun flags =>
    c.step c.peekWord fun type => c.step (c.checkDescriptor type) fun _ =>
      c.bind c.top fun slot slot' h => ?_)
  rw [h.isAbsent_eq]
  split
  · exact c.openNode .annot .none
  · exact c.bind (c.send trivial) fun _ _ hnode => c.openNode _ hnode

/-- An annotation inside another is opened unless the outer one is muted. -/
theorem subAnnot : c.Agree b Eq r.subAnnot r'.subAnnot := by
  refine c.atLineEnd (c.step (c.passKeyword _) fun _ => c.step (c.onLine parallel_cleaned) fun text =>
    c.step (c.onLine parallel_accessFlags) fun flags => c.step c.peekWord fun type =>
      c.step (c.checkDescriptor type) fun _ => c.bind c.top fun slot slot' h => ?_)
  rw [h.isMuted_eq]
  refine c.ite (c.openWith (.blank _) _) (c.bind (c.send trivial) fun node? node'? hnode => ?_)
  rw [Twin.isSome_eq hnode]
  exact c.openWith (.ofOption hnode) _

/-- What is closed was open in both, and is told of its end unless it was left blank. -/
theorem close : c.Agree false Eq r.close r'.close := by
  refine c.step (c.onLine parallel_lastWord) fun word => c.ite c.copyLine (c.bind c.pop fun slot slot' h => ?_)
  cases h with
  | absent => exact c.copyLine
  | blank shape => exact c.copyLine
  | node h => exact c.bind (c.sendTo (.node h) trivial) fun _ _ _ => c.pure _

/-- Slots that stand for each other have the same shapes. -/
theorem hasShape_twin (h : Twin c.Peer slot slot') (shape : Shape) :
    r'.hasShape slot' shape = r.hasShape slot shape := by
  cases h with
  | absent => rfl
  | blank s => rfl
  | node h => exact c.hasShape_eq h shape

/-- A field without an end is left by the next directive. -/
theorem leaveField (name : String) : c.Agree false Eq (r.leaveField name) (r'.leaveField name) := by
  refine c.bind c.top fun slot slot' h => ?_
  rw [c.hasShape_twin h]
  exact c.ite (c.bind c.pop fun _ _ _ => c.pure _) (c.pure _)

variable {c} (hl : c.Loops)

include hl

/-- With opening and closing, all directives agree. -/
theorem simpleDirective (d : Directive) : c.Agree false Eq (r.simpleDirective d) (r'.simpleDirective d) := by
  cases hd : d.nests with
  | false => exact Accord.simpleDirective hl hd
  | true =>
    cases d with
    | field => exact c.field
    | close => exact c.close
    | method => exact c.method
    | annot => exact c.annot
    | subAnnot => exact c.subAnnot
    | _ => cases hd

/-- Directives may stand inside values, and values inside directives: the induction is on the bound of both. -/
theorem directive_value (n : Nat) :
    c.Agree false Eq (r.directive n) (r'.directive n) ∧ c.Agree false Eq (r.value n) (r'.value n) := by
  induction n with
  | zero => exact ⟨c.throw rfl, c.throw rfl⟩
  | succ n ih =>
    obtain ⟨hdirective, hvalue⟩ := ih
    constructor
    · refine c.step c.peekWord fun word => c.step (c.leaveField _) fun _ => ?_
      refine c.ite c.interface (c.ite ?_ ?_)
      · exact c.bind (c.classHeader true) fun _ _ hnode => c.push (.ofOption hnode)
      · split
        · exact c.throw rfl
        · exact hvalue
        · exact hdirective
        · exact simpleDirective hl _
    · exact c.step c.nextWord fun name => c.step c.nextWord fun _ => c.step c.peekWord fun word =>
        c.step (c.onLine (parallel_firstChar word)) fun _ => c.ite hdirective (Accord.plainValue hl name)

/-- All that a reader does on the current line agrees with what the other does. -/
theorem statement : c.Agree false Eq r.statement r'.statement := by
  refine c.step c.peekWord fun word => c.step (c.onLine (parallel_firstChar word)) fun ch => ?_
  refine c.ite (c.step (c.onLine parallel_wordBound) fun n => (directive_value hl n).1)
    (c.ite c.label (c.bind c.top fun slot slot' h => ?_))
  rw [c.hasShape_twin h, c.hasShape_twin h]
  exact c.ite (c.step (c.onLine parallel_wordBound) fun n => (directive_value hl n).2)
    (c.ite c.instruction (c.throw rfl))

/-- An empty line is copied by both. -/
theorem lineAtHand : c.Agree false Eq (do if (← currentLine).cleaned.isEmpty then r.copyLine else r.statement)
    (do if (← currentLine).cleaned.isEmpty then r'.copyLine else r'.statement) :=
  c.step (c.onLine parallel_currentLine) fun _ => c.ite c.copyLine (statement hl)

end Correspondence

end Reader

end Dalvik
