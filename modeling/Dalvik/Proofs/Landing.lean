import Dalvik.Proofs.Loading
import Dalvik.Proofs.Rounds

/-!
# Where a taken jump lands

A jump sets the position of its frame to the position of the label, and the loop that runs the method moves
on by one. The position of a label counts labels and instructions, but only instructions are numbered in a
frame. So a taken jump never lands on the first instruction behind its label: it skips one instruction, and
one more for every label in front (`Store.taken_jump_skips`). This holds of plain jumps, of branches whose
condition holds, and of switches with a matching case, at whatever point of a run they are met.
-/

namespace Dalvik.Store

open List Item

variable {label : String} {w : Store} {a i : Nat} {p : Int}

/-! ### Jumps that are taken -/

/-- The first branch whose key equals a value leads to a label; the last store is the one in which the
comparison was made. -/
inductive Matches (v : Value) (label : String) : Store → List (Datum × Datum) → Store → Prop
  | here {w w₁ w₂ : Store} {key : Datum} {k : Value} {rest : List (Datum × Datum)} :
      outcome (literal key) w = (.ok k, w₁) → outcome (equal k v) w₁ = (.ok true, w₂) →
      Matches v label w ((key, .text label) :: rest) w₂
  | later {w w₁ w₂ w₃ : Store} {key target : Datum} {k : Value} {rest : List (Datum × Datum)} :
      outcome (literal key) w = (.ok k, w₁) → outcome (equal k v) w₁ = (.ok false, w₂) →
      Matches v label w₂ rest w₃ → Matches v label w ((key, target) :: rest) w₃

/-- An operation with its operands goes to a label: a plain jump, a branch whose condition holds, or a switch
with a matching case. The store is the one in which the operation is started for an action. -/
inductive Takes (w : Store) (a : Nat) (label : String) : Operation → List Datum → Prop
  | jump : Takes w a label .jump [.text label]
  | branch {r : Relation} {x y : Datum} {u v : Value} {w' : Store} :
      outcome (register a x) w = (.ok u, w) → outcome (register a y) w = (.ok v, w) →
      outcome (related r u v) w = (.ok true, w') → Takes w a label (.branch r) [x, y, .text label]
  | branchZero {r : Relation} {x : Datum} {u : Value} {w' : Store} :
      outcome (register a x) w = (.ok u, w) → outcome (related r u (.int 0)) w = (.ok true, w') →
      Takes w a label (.branchZero r) [x, .text label]
  | packedSwitch {name place first : Datum} {labels : List Datum} {v k : Value} {index : Nat}
      {w₁ w₂ : Store} : outcome (switchAt a place) w = (.ok (.packed first labels), w) →
      outcome (register a name) w = (.ok v, w) → outcome (literal first) w = (.ok k, w₁) →
      outcome (apply .sub v k) w₁ = (.ok (.int index), w₂) → labels[index]? = some (.text label) →
      Takes w a label .packedSwitch [name, place]
  | sparseSwitch {name place : Datum} {branches : List (Datum × Datum)} {v : Value} {w' : Store} :
      outcome (switchAt a place) w = (.ok (.sparse branches), w) →
      outcome (register a name) w = (.ok v, w) → Matches v label w branches w' →
      Takes w a label .sparseSwitch [name, place]

theorem Matches.outcome_firstBranch {v : Value} {w' : Store} {branches : List (Datum × Datum)}
    (h : Matches v label w branches w') (a : Nat) :
    quietContract.leads w w' ∧ outcome (firstBranch a v branches) w = outcome (jump a (.text label)) w' := by
  induction h with
  | @here w w₁ w₂ key k rest hkey hequal =>
    have h₁ := (Blind.literal (q := true) key).leads_of hkey
    have h₂ := (Blind.equal (q := true) k v).leads_of hequal
    refine ⟨quietContract.trans h₁ h₂, ?_⟩
    rw [firstBranch, bind_ok w hkey, bind_ok w₁ hequal]
    rfl
  | @later w w₁ w₂ w₃ key target k rest hkey hequal _ ih =>
    have h₁ := (Blind.literal (q := true) key).leads_of hkey
    have h₂ := (Blind.equal (q := true) k v).leads_of hequal
    refine ⟨quietContract.trans (quietContract.trans h₁ h₂) ih.1, ?_⟩
    rw [firstBranch, bind_ok w hkey, bind_ok w₁ hequal]
    exact ih.2

theorem outcome_ordered_int {r : Relation} (hr : r ≠ .eq ∧ r ≠ .ne) (x y : Int) (w : Store) :
    outcome (related r (.int x) (.int y)) w = (.ok (r.accepts (compare x y)), w) := by
  have hordered : ∀ n, outcome (orderedWithin r n (.int x) (.int y)) w = (.ok (r.accepts (compare x y)), w) := by
    intro n
    unfold orderedWithin
    rfl
  rw [related]
  · exact hordered _
  · exact hr.1
  · exact hr.2

theorem accepts_lt (x y : Int) : Relation.lt.accepts (compare x y) = decide (x < y) := by
  rw [Bool.eq_iff_iff]
  simp [Relation.accepts, Int.compare_eq_lt]

theorem accepts_ge (x y : Int) : Relation.ge.accepts (compare x y) = decide (y ≤ x) := by
  rw [Bool.eq_iff_iff]
  simp [Relation.accepts, Int.compare_eq_lt]

theorem outcome_equal_int (x y : Int) : outcome (equal (.int x) (.int y)) w = (.ok (decide (x = y)), w) := by
  have hcompare : (compare x y == .eq) = decide (x = y) := by
    rw [Bool.eq_iff_iff]
    simp
  simp [equal, nestingLimit, equalWithin, equalSimple, compareNumbers?, Value.int?, hcompare]

theorem outcome_branchAt {labels : List Datum} {index : Nat} {target : Datum}
    (h : labels[index]? = some target) (a : Nat) (w : Store) :
    outcome (branchAt a labels (.int index)) w = outcome (jump a target) w := by
  have hlt : index < labels.length := (List.getElem?_eq_some_iff.mp h).1
  rw [branchAt, bind_ok _ (outcome_ordered_int (by decide) _ _ w), accepts_lt, if_neg (by simp),
    bind_ok _ (outcome_ordered_int (by decide) _ _ w), accepts_ge, if_neg (by simpa using hlt)]
  simp [Value.int?, h]

theorem Takes.outcome_operate {op : Operation} {operands : List Datum} (h : Takes w a label op operands) (run : Runner) :
    ∃ w', quietContract.leads w w' ∧
      outcome (operate run a op operands) w = outcome (Store.jump a (.text label)) w' := by
  cases h with
  | jump => exact ⟨w, quietContract.refl w, rfl⟩
  | branch hx hy hrelated =>
    refine ⟨_, (Blind.related (q := true) _ _ _).leads_of hrelated, ?_⟩
    rw [operate, bind_ok w hx, bind_ok w hy, branchIf, bind_ok w hrelated, if_pos rfl]
  | branchZero hx hrelated =>
    refine ⟨_, (Blind.related (q := true) _ _ _).leads_of hrelated, ?_⟩
    rw [operate, bind_ok w hx, branchIf, bind_ok w hrelated, if_pos rfl]
  | packedSwitch hswitch hname hfirst hsub hlabel =>
    have h₁ := (Blind.literal (q := true) _).leads_of hfirst
    have h₂ := (Blind.apply (q := true) _ _ _).leads_of hsub
    refine ⟨_, quietContract.trans h₁ h₂, ?_⟩
    rw [operate, Store.packedSwitch, bind_ok w hswitch]
    dsimp only
    rw [pure_bind, bind_ok w hname, bind_ok w hfirst, bind_ok _ hsub]
    exact outcome_branchAt hlabel a _
  | sparseSwitch hswitch hname hmatch =>
    obtain ⟨hquiet, hbranch⟩ := hmatch.outcome_firstBranch a
    refine ⟨_, hquiet, ?_⟩
    rw [operate, Store.sparseSwitch, bind_ok w hswitch, bind_ok w hname]
    exact hbranch

/-! ### One round -/

/-- The instruction at hand of a method that runs goes to a label. -/
structure Jumps (w : Store) (vm m i : Nat) (label : String) : Prop where
  running : (w.frame i).finished = false
  taken : ∃ x op operands, instructionAt (w.frame i) = pure x ∧
    ((w.actions[x.action]?).getD default).operation? = some op ∧ spread x.operands = pure operands ∧
    Takes (w.entered vm m i x) x.action label op operands

theorem outcome_jump (ha : ((w.actions[a]?).getD default).frame = i) (hp : (w.frame i).labels.get? label = some p) :
    outcome (jump a (.text label)) w = (.ok (), { w with
      frames := w.frames.modify i fun f => { f with label? := some label, position := p } }) := by
  have hcurrent : outcome (currentFrame a) w = (.ok i, w) := by rw [← ha]; rfl
  have hframe : outcome (frameInfo i) w = (.ok (w.frame i), w) := rfl
  rw [jump, bind_ok w hcurrent, bind_ok w hframe]
  simp only [Datum.text?, Option.bind_some, hp, Option.map_some]
  rfl

theorem Jumps.outcome_iteration {vm m : Nat} (h : w.Jumps vm m i label) (hp : (w.frame i).labels.get? label = some p)
    (n : Nat) :
    ∃ w', outcome (iteration n vm m i (w.frame i)) w = (.ok (), w') ∧
      w'.frame i = { w.frame i with label? := some label, position := p + 1 } := by
  obtain ⟨-, x, op, operands, hx, hop, hspread, htakes⟩ := h
  obtain ⟨-, hcurrent⟩ := action_entered vm m i hop
  -- the operation jumps in a store with the frames of the first one
  obtain ⟨v, ⟨hframes, hactions, -⟩, hjump⟩ := htakes.outcome_operate (runWithin n)
  have hframes' : v.frames = w.frames := hframes.trans (frames_entered w vm m i x)
  have hp' : (v.frame i).labels.get? label = some p := by rw [frame, hframes']; exact hp
  rw [outcome_jump (by rw [hactions]; exact hcurrent) hp'] at hjump
  obtain ⟨notes, hround⟩ := Store.outcome_iteration hx hop hspread hjump
  refine ⟨_, hround, ?_⟩
  have hi : i < w.frames.size := by
    by_contra hlarge
    have hnone : w.frames[i]? = none := Array.getElem?_eq_none (by omega)
    rw [frame, hnone] at hp
    cases hp
  simp [hframes', frame, Array.getElem_modify, hi]

/-! ### Runs -/

theorem outcome_instructionAt {f : Frame} {p : Nat} (hp : f.position = p) (w : Store) :
    (outcome (instructionAt f) w).1 = match f.instructions.toList[p]? with
      | some x => .ok x
      | none => .error .noElement := by
  have hnonneg : ¬ (p : Int) < 0 := by omega
  simp only [instructionAt, hp, hnonneg, if_false, Int.toNat_natCast, Array.getElem?_toList]
  cases f.instructions[p]? <;> rfl

/-- A jump that is taken to a label does not go on at the first instruction behind it. The body of a method
is loaded from lines with labels and instructions; `pre` is what stands in front of the last line with the
label, and `rest` is what the lines behind it enter. Whenever, in a run of the method, the instruction at
hand goes to the label, the next instruction is the one of `rest` that comes after one instruction, and
after one more for each label in `pre`; if there is none, the run ends in a fault. -/
theorem taken_jump_skips {m i : Nat} {st : List (Slot LoadNode)} {pre post : List String}
    {text label : String} {s u t : Session LoadNode Store}
    (hst : s.stack = .node (.method m i) :: st) (hi : i < s.world.frames.size)
    (hcode : (s.world.frame i).instructions = #[]) (hloaded : (s.world.frame i).loaded = 0)
    (hkinds : ∀ l ∈ pre ++ text :: post, ∃ item, Of l item) (htext : Of text (.label label))
    (hlast : ∀ l ∈ post, ¬ Of l (.label label)) (hpre : Loads s pre u)
    (hpost : Loads u (text :: post) t) {vm m' n k : Nat} {w₀ w : Store}
    (hsame : (w₀.frame i).code = (t.world.frame i).code) (hruns : Runs vm m' i n w₀ (k + 1) w)
    (hjumps : w.Jumps vm m' i label) :
    ∃ rest w', (t.world.frame i).instructions.toList = (u.world.frame i).instructions.toList ++ rest ∧
      outcome (runWithin (k + 1) vm m' i) w = outcome (runWithin k vm m' i) w' ∧
      (w'.frame i).finished = false ∧
      (w'.frame i).position = (((u.world.frame i).instructions.size + (pre.countP isLabelLine + 1) : Nat) : Int) ∧
      (outcome (instructionAt (w'.frame i)) w').1 = match rest[pre.countP isLabelLine + 1]? with
        | some x => .ok x
        | none => .error .noElement := by
  obtain ⟨hstack, hsize, before, hbefore, hu⟩ :=
    hpre.frame_eq hst hi fun l hl => hkinds l (mem_append_left _ hl)
  obtain ⟨-, -, items, hitems, ht⟩ :=
    hpost.frame_eq (hstack.trans hst) (by omega) fun l hl => hkinds l (mem_append_right _ hl)
  obtain ⟨item, after, hitem, hafter, rfl⟩ := forall₂_cons_left_iff.mp hitems
  obtain rfl := htext.eq_label hitem
  have hlater : ∀ item ∈ after, item ≠ .label label := by
    rintro item hmem rfl
    obtain ⟨l, hl, hof⟩ := exists_line_of_mem hafter _ hmem
    exact hlast l hl hof
  -- the code of the frame at the jump is the code that was loaded
  have hsame' : (w.frame i).code = (t.world.frame i).code := hruns.code_eq.trans hsame
  have hlabel : (w.frame i).labels.get? label = some ((u.world.frame i).loaded : Int) := by
    have heq := congrArg (fun f : Frame => f.labels.get? label) hsame'
    have hentered := labels_foldl after hlater (u.world.frame i)
    rw [← ht] at hentered
    exact heq.trans hentered
  have hrest : (t.world.frame i).instructions.toList = (u.world.frame i).instructions.toList ++ codes after := by
    rw [ht, instructions_foldl]
    rfl
  -- the label stands behind the items in front of it, which are instructions and labels
  have hplace : (u.world.frame i).loaded = (u.world.frame i).instructions.size + pre.countP isLabelLine := by
    have hlen := length_eq before
    have hcodes := congrArg length (instructions_foldl before (s.world.frame i))
    rw [← hu, hcode] at hcodes
    rw [hu, loaded_foldl, hloaded, ← hu, ← labelCount_eq_countP hbefore]
    simp only [Array.length_toList, nil_append] at hcodes
    omega
  obtain ⟨w', hround, hw'⟩ := hjumps.outcome_iteration hlabel k
  have hposition : (w'.frame i).position
      = (((u.world.frame i).instructions.size + (pre.countP isLabelLine + 1) : Nat) : Int) := by
    rw [hw', hplace]
    simp [Int.add_assoc]
  refine ⟨codes after, w', hrest, ?_, by rw [hw']; exact hjumps.running, hposition, ?_⟩
  · exact (Runs.round hjumps.running hround (.refl k w')).outcome_runWithin
  · have hcode' : (w'.frame i).instructions = (t.world.frame i).instructions := by
      have heq := congrArg Frame.instructions hsame'
      rw [hw']
      exact heq
    rw [outcome_instructionAt hposition, hcode', hrest, getElem?_append_right (by simp)]
    simp

/-- A method with the body at hand, and a machine for it. -/
def bodyAt (lines : List String) : Session LoadNode Store :=
  ⟨⟨lines.map some⟩, .start, [.node (.method 0 0)],
    { Store.initial with frames := #[{ Frame.empty with vm? := some 0 }], vms := #[default] }⟩

/-- What is left when the line at hand is read. -/
def afterLine (s : Session LoadNode Store) : Session LoadNode Store :=
  (outcome loadReader.readLine s).2

theorem eq_ok_of_toOption {ε α : Type} {x : Except ε α} {a : α} (h : x.toOption = some a) : x = .ok a := by
  cases x with
  | ok b => exact congrArg Except.ok (Option.some.inj h)
  | error f => cases h

theorem Loads.afterLine {s t : Session LoadNode Store} {text : String} {body : List String}
    (hs : s.source.lines.head? = some (some text))
    (hok : (outcome loadReader.readLine s).1.toOption = some ()) (h : Loads (afterLine s) body t) :
    Loads s (text :: body) t := by
  obtain ⟨ls, hls⟩ := head?_eq_some_iff.mp hs
  exact .cons hls (Prod.ext (eq_ok_of_toOption hok) rfl) h

/-- The label that the operands of a plain jump are. -/
def target? : Datum → Option String
  | .text l => some l
  | _ => none

/-- The instruction behind the label of a jump is passed over, and the run goes on at the second one. -/
theorem taken_jump_skips_idle :
    ∃ s u t w', s = bodyAt ["goto :L\n", ":L\n", "nop\n", "return-void\n"] ∧ Loads s ["goto :L\n"] u ∧
      Loads u [":L\n", "nop\n", "return-void\n"] t ∧ t.world.Jumps 0 0 0 "L" ∧
      outcome (runWithin 9 0 0 0) t.world = outcome (runWithin 8 0 0 0) w' ∧
      (w'.frame 0).position = 2 := by
  let s := bodyAt ["goto :L\n", ":L\n", "nop\n", "return-void\n"]
  let u := afterLine s
  let t := afterLine (afterLine (afterLine u))
  have hpre : Loads s ["goto :L\n"] u := .afterLine rfl (by decide +kernel) (.nil u)
  have hpost : Loads u [":L\n", "nop\n", "return-void\n"] t :=
    .afterLine (by decide +kernel) (by decide +kernel) (.afterLine (by decide +kernel) (by decide +kernel)
      (.afterLine (by decide +kernel) (by decide +kernel) (.nil t)))
  obtain ⟨x, hx⟩ : ∃ x, (t.world.frame 0).instructions[0]? = some x :=
    Option.isSome_iff_exists.mp (by decide +kernel)
  have hjumps : t.world.Jumps 0 0 0 "L" := by
    have hposition : (t.world.frame 0).position = 0 := by decide +kernel
    have haction : ((t.world.frame 0).instructions[0]?.bind fun x =>
        ((t.world.actions[x.action]?).getD default).operation?) = some .jump := by decide +kernel
    have hoperands : ((t.world.frame 0).instructions[0]?.bind fun x => target? x.operands) = some "L" := by
      decide +kernel
    rw [hx, Option.bind_some] at haction hoperands
    refine ⟨by decide +kernel, x, .jump, [.text "L"], ?_, haction, ?_, .jump⟩
    · simp [instructionAt, hposition, hx]
    · cases hdatum : x.operands with
      | text l =>
        rw [hdatum] at hoperands
        obtain rfl : l = "L" := Option.some.inj hoperands
        rfl
      | _ =>
        rw [hdatum] at hoperands
        cases hoperands
  have hlabel : Of ":L\n" (.label "L") :=
    ⟨":L", by decide +kernel, by decide +kernel, by decide +kernel⟩
  have hgoto : Of "goto :L\n" (.code default) :=
    ⟨"goto", 'g', by decide +kernel, by decide, by decide, by decide⟩
  have hidle : Of "nop\n" (.code default) :=
    ⟨"nop", 'n', by decide +kernel, by decide, by decide, by decide⟩
  have hreturn : Of "return-void\n" (.code default) :=
    ⟨"return-void", 'r', by decide +kernel, by decide, by decide, by decide⟩
  have hkinds : ∀ l ∈ ["goto :L\n"] ++ ":L\n" :: ["nop\n", "return-void\n"], ∃ item, Of l item := by
    simp only [cons_append, nil_append, forall_mem_cons]
    exact ⟨⟨_, hgoto⟩, ⟨_, hlabel⟩, ⟨_, hidle⟩, ⟨_, hreturn⟩, by simp⟩
  have hlast : ∀ l ∈ ["nop\n", "return-void\n"], ¬ Of l (.label "L") := by
    simp only [forall_mem_cons]
    refine ⟨fun h => ?_, fun h => ?_, by simp⟩
    · exact absurd (h.isLabelLine_of_label.symm.trans hidle.isLabelLine_of_code) (by decide)
    · exact absurd (h.isLabelLine_of_label.symm.trans hreturn.isLabelLine_of_code) (by decide)
  obtain ⟨rest, w', -, hloop, -, hposition, -⟩ := taken_jump_skips rfl (by decide +kernel) rfl rfl hkinds
    hlabel hlast hpre hpost rfl (.refl 9 t.world) hjumps
  refine ⟨s, u, t, w', rfl, hpre, hpost, hjumps, hloop, hposition.trans ?_⟩
  decide +kernel

/-- The method of a name is called in a class that is loaded from a text. -/
def callLoaded (text name : String) : Read LoadNode Store Value := do
  let vm ← reading (newVm [] false false)
  let c ← load vm (.text text) true
  reading do callValue runner (← methodOf c name) ⟨.null, [], []⟩

/-- Behind the label of its jump, a method puts the number two into the register that it ends with, but the
jump passes over that: the method ends with the number one. -/
theorem goto_skips_assignment :
    (outcome (callLoaded (".class public LT;\n.method public static a()I\n.locals 1\nconst/4 v0, 1\n" ++
      "goto :L\n:L\nconst/4 v0, 2\nreturn v0\n.end method\n") "a()I")
        ⟨⟨[]⟩, .start, [], .initial⟩).1.toOption.bind Value.int? = some 1 := by
  decide +kernel

end Dalvik.Store
