import Dalvik.Proofs.Headings
import Dalvik.Proofs.Straight

/-!
# Straight-line code as text

An assignment is a line: the name of its instruction, and its operands with commas between them. Any reader
reads the line back, and delivers the instruction with its operands to whatever listens as a method
(`Assignment.ends_statement`), so the same lines can be loaded as the body of a method or be typed at the
console.
-/

namespace Dalvik

open Dalvik.Text Reader Document Bool

theorem mem_registerName {k : Nat} {c : Char} (hc : c ∈ (registerName k).toList) :
    isBlank c = false ∧ c ≠ '#' ∧ c ≠ '"' ∧ c ≠ ',' := by
  obtain ⟨ds, -, hlt, hdigits, -⟩ := @Number.exists_digits 10 (by omega) k
  have hname : (registerName k).toList = 'v' :: ds.map Nat.digitChar := by
    have hrepr : toString k = k.repr := rfl
    rw [registerName, String.toList_append, hrepr, Nat.repr_eq_ofList_toDigits, String.toList_ofList, hdigits]
    rfl
  have hall : ∀ d < 10, isBlank (Nat.digitChar d) = false ∧ Nat.digitChar d ≠ '#' ∧ Nat.digitChar d ≠ '"' ∧
      Nat.digitChar d ≠ ',' := by decide
  rw [hname] at hc
  rcases List.mem_cons.mp hc with rfl | hc
  · decide
  · obtain ⟨d, hd, rfl⟩ := List.mem_map.mp hc
    exact hall d (hlt d hd)

theorem isOperand_registerName (k : Nat) : isOperand (registerName k) = true := by
  have hbare : IsBare (registerName k) := by
    refine ⟨fun hempty => ?_, fun c hc => ⟨(mem_registerName hc).1, (mem_registerName hc).2.1⟩, fun hhead => ?_⟩
    · have := congrArg String.toList hempty
      simp [registerName] at this
    · exact (mem_registerName (List.mem_of_head? hhead)).2.2.1 rfl
  rw [isOperand, and_eq_true, decide_eq_true_eq, not_eq_true', List.contains_eq_mem, decide_eq_false_iff_not]
  exact ⟨hbare, fun hmem => (mem_registerName hmem).2.2.2 rfl⟩

theorem Reader.IsRow.conveys_flush {ν σ : Type} {r : Reader ν σ} {text : List Char} {ws : List String}
    (h : IsRow text ws) (hcopy : r.host.copy? = none) {st st' : Slots ν} {d d' : σ}
    (hread : ∀ raw, Ends raw ws ws st d r.statement st' d') : r.Conveys text st d st' d' :=
  h.conveys hcopy (show ∀ c ∈ [], c = ' ' by simp) hread

theorem Reader.isWording_withCommas {name : String} (hname : IsBare name) {xs : List String}
    (hxs : ∀ x ∈ xs, isOperand x = true) : IsWording (name :: withCommas xs) := by
  have hbare : ∀ x ∈ xs, IsBare x := by
    intro x hx
    have h := hxs x hx
    rw [isOperand, and_eq_true, decide_eq_true_eq] at h
    exact h.1
  refine isWording_of_bare fun x hx => ?_
  rcases List.mem_cons.mp hx with rfl | hx
  · exact hname
  · rcases mem_withCommas hx with hx | ⟨y, hy, rfl⟩
    · exact hbare x hx
    · exact (hbare y hy).comma

theorem intercalate_cons_withCommas (name : String) {xs : List String} (hne : xs ≠ []) :
    name ++ " " ++ ", ".intercalate xs = " ".intercalate (name :: withCommas xs) := by
  obtain ⟨y, ys, hys⟩ := List.exists_cons_of_ne_nil (withCommas_ne_nil hne)
  rw [intercalate_withCommas, hys, String.intercalate_cons_cons]

namespace Mnemonic

/-- The name of an instruction is a word that is neither a directive nor a label, and the instruction has no
statement of its own. -/
theorem name_spec (x : Mnemonic) : isInstructionName x.name = true := by
  have hall : ∀ x ∈ all, isInstructionName x.name = true := by decide +kernel
  exact hall x (mem_all x)

end Mnemonic

namespace Assignment

/-- The words of an assignment. -/
def words (s : Assignment) : List String :=
  s.mnemonic.name :: withCommas s.operands

/-- The event of an assignment. -/
def event (s : Assignment) : Event :=
  .instruction (.text s.mnemonic.name) (.texts s.operands)

variable (s : Assignment)

theorem isOperand_operands : ∀ x ∈ s.operands, isOperand x = true := by
  have hregister := isOperand_registerName
  cases s with
  | const form d n =>
    have hn : isOperand n.text = true := by
      rw [isOperand, and_eq_true, decide_eq_true_eq, not_eq_true', List.contains_eq_mem, decide_eq_false_iff_not]
      exact n.isBare_text
    simp [operands, hregister, hn]
  | _ => simp [operands, hregister]

theorem operands_ne_nil : s.operands ≠ [] := by
  cases s <;> simp [operands]

theorem isWording_words : IsWording s.words := by
  have hname := s.mnemonic.name_spec
  simp only [isInstructionName, and_eq_true, decide_eq_true_eq] at hname
  exact isWording_withCommas hname.1.1.1.1 s.isOperand_operands

theorem text_eq : s.text = " ".intercalate s.words :=
  intercalate_cons_withCommas _ s.operands_ne_nil

variable {ν σ : Type} {r : Reader ν σ} {n : ν} {st : Slots ν} {d d' : σ}

theorem ends_statement (hannot : r.hasShape (.node n) .annot = false) (hmethod : r.hasShape (.node n) .method = true)
    (htell : ∀ src k, outcome (r.tell s.event) ⟨src, k, .node n :: st, d⟩
      = (.ok (), ⟨src, k, .node n :: st, d'⟩)) (raw : String) :
    Ends raw s.words s.words (.node n :: st) d r.statement (.node n :: st) d' := by
  have hname := s.mnemonic.name_spec
  simp only [isInstructionName, and_eq_true, decide_eq_true_eq, bne_iff_ne, not_eq_true'] at hname
  obtain ⟨⟨⟨⟨hbare, hopening⟩, hgoto⟩, hinvoke⟩, hreturn⟩ := hname
  have hxs := operandsIn_withCommas fun x hx => .inl (s.isOperand_operands x hx)
  refine .withOperands hannot hmethod hbare.1 hopening hinvoke hgoto hxs ?_
  rw [Event.ofOperands, if_neg (eq_false_iff.mp hreturn)]
  exact .tell htell

end Assignment

end Dalvik
