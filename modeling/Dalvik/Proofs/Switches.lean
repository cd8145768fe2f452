import Dalvik.Proofs.Forms

/-!
# Switches

A switch over consecutive keys finds the branch of a value by its index, a switch over any keys by comparing it with
one key after the other. Where the keys of both are the same, however they are spelled, both do the same: they go to the
label of the branch, or do nothing if the value has none (`Store.switches_agree`).
-/

namespace Dalvik.Store

open LoadNode (firstAction)

/-- The label of the branch at an index. -/
def labelAt? (labels : List Datum) (n : Int) : Option Datum := if n < 0 then none else labels[n.toNat]?

/-- Goes to a label, if there is one. -/
def jumpTo? (a : Nat) : Option Datum → Act Unit
  | some label => jump a label
  | none => pure ()

variable {w u : Store} {a b i : Nat} {k v n : Int} {first name p q : String} {keys : List String} {labels : List Datum}

theorem labelAt?_eq_none_iff : labelAt? labels n = none ↔ n < 0 ∨ labels.length ≤ n := by
  simp only [labelAt?, ite_eq_left_iff, List.getElem?_eq_none_iff]
  omega

theorem labelAt?_cons (label : Datum) :
    labelAt? (label :: labels) n = if n = 0 then some label else labelAt? labels (n - 1) := by
  rcases Int.lt_trichotomy n 0 with hn | rfl | hn
  · simp [labelAt?, hn, Int.ne_of_lt hn, show n - 1 < 0 by omega]
  · rfl
  · obtain ⟨m, rfl⟩ : ∃ m : Nat, n = m + 1 := ⟨(n - 1).toNat, by omega⟩
    simp [labelAt?, show ¬(m + 1 : Int) < 0 by omega, show (m + 1 : Int) ≠ 0 by omega]

theorem outcome_branchAt_int (a : Nat) (labels : List Datum) (n : Int) (u : Store) :
    outcome (branchAt a labels (.int n)) u = outcome (jumpTo? a (labelAt? labels n)) u := by
  cases hl : labelAt? labels n with
  | some label =>
    obtain ⟨hn, hlabel⟩ : ¬n < 0 ∧ labels[n.toNat]? = some label := by simpa [labelAt?] using hl
    obtain ⟨m, rfl⟩ := Int.eq_ofNat_of_zero_le (Int.not_lt.mp hn)
    exact outcome_branchAt hlabel a u
  | none =>
    rw [labelAt?_eq_none_iff] at hl
    rw [branchAt, outcome_bind, outcome_ordered_int (by decide), accepts_lt]
    by_cases hn : n < 0
    · simp [hn, jumpTo?]
    · simp [hn, jumpTo?, outcome_bind, outcome_ordered_int, accepts_ge, hl.resolve_left hn]

/-- The keys of a switch are spelled somehow, and are consecutive from some integer on. -/
def Consecutive (k : Int) (keys : List String) : Prop :=
  ∀ (j : Nat) key, keys[j]? = some key → Literal.parse key = .ok (.int (k + j))

theorem outcome_firstBranch_int (hkeys : Consecutive k keys) (hlength : keys.length = labels.length) (a : Nat) (u : Store) :
    outcome (firstBranch a (.int v) ((keys.map .text).zip labels)) u = outcome (jumpTo? a (labelAt? labels (v - k))) u := by
  induction keys generalizing labels k with
  | nil =>
    obtain rfl : labels = [] := List.length_eq_zero_iff.mp hlength.symm
    simp [firstBranch, labelAt?, jumpTo?]
  | cons key keys ih =>
    obtain ⟨label, labels, rfl⟩ := List.exists_cons_of_length_eq_add_one hlength.symm
    have hkey : Literal.parse key = .ok (.int k) := by simpa using hkeys 0 key rfl
    have hrest : Consecutive (k + 1) keys := fun j key hj => by
      rw [hkeys (j + 1) key hj]
      congr 2
      omega
    rw [List.map_cons, List.zip_cons_cons, firstBranch, bind_ok _ (outcome_literal hkey), bind_ok _ (outcome_equal_int k v),
      labelAt?_cons]
    by_cases hv : k = v
    · simp [hv, jumpTo?]
    · rw [if_neg (by simpa using hv), if_neg (by omega), ih hrest (by simpa using hlength)]
      congr 3
      omega

theorem outcome_switchAt {s : Switch} (ha : (u.action a).frame = i) (hs : (u.frame i).switches.get? (some p) = some s) :
    outcome (switchAt a (.text p)) u = (.ok s, u) := by
  subst ha
  unfold switchAt
  rw [bind_ok u (outcome_currentFrame u a), bind_ok u (outcome_frameInfo u _)]
  simp [Datum.text?, hs]

/-- Going to a label does the same, whatever the action it is done for. -/
theorem sameEffect_jumpTo? (label? : Option Datum) (ha : ((w.started a i).action a).frame = i)
    (hb : ((w.started b i).action b).frame = i) :
    SameEffect (outcome (jumpTo? a label?) (w.started a i)) (outcome (jumpTo? b label?) (w.started b i)) := by
  match label? with
  | none => exact ⟨rfl, rfl⟩
  | some label =>
    have hcurrent {c : Nat} (hc : ((w.started c i).action c).frame = i) :
        outcome (currentFrame c) (w.started c i) = (.ok i, w.started c i) :=
      congrArg (fun j => (Except.ok j, w.started c i)) hc
    have hframe (c : Nat) : outcome (frameInfo i) (w.started c i) = (.ok (w.frame i), w.started c i) := rfl
    rw [jumpTo?, jumpTo?, jump, jump, bind_ok _ (hcurrent ha), bind_ok _ (hcurrent hb), bind_ok _ (hframe a),
      bind_ok _ (hframe b)]
    split
    · exact ⟨rfl, rfl⟩
    · exact ⟨rfl, rfl⟩
    · split <;> exact ⟨rfl, rfl⟩

theorem first_switches : firstOperation? "packed-switch" = some .packedSwitch ∧
    firstOperation? "sparse-switch" = some .sparseSwitch ∧ firstOperation? "goto" = some .jump := by
  decide +kernel

/-- A switch over consecutive keys and a switch over keys that happen to be consecutive do the same: nothing for a value
that is no key, and for a key what a jump to its label does. -/
theorem switches_agree (hw : w.KeepsFirst) (run : Runner) (hname : w.registerIn? i (.text name) = some (.int v))
    (hfirst : Literal.parse first = .ok (.int k)) (hkeys : Consecutive k keys) (hlength : keys.length = labels.length)
    (hpacked : (w.frame i).switches.get? (some p) = some (.packed (.text first) labels))
    (hsparse : (w.frame i).switches.get? (some q) = some (.sparse ((keys.map .text).zip labels))) :
    let packed := outcome (perform run (firstAction "packed-switch") i (.texts [name, p])) w
    let sparse := outcome (perform run (firstAction "sparse-switch") i (.texts [name, q])) w
    SameEffect packed sparse ∧
    (v < k ∨ k + labels.length ≤ v → packed = (.ok (), w.started (firstAction "packed-switch") i) ∧
      sparse = (.ok (), w.started (firstAction "sparse-switch") i)) ∧
    ∀ (j : Nat) label, v = k + j → labels[j]? = some label →
      SameEffect packed (outcome (perform run (firstAction "goto") i (.list [label])) w) ∧
      SameEffect sparse (outcome (perform run (firstAction "goto") i (.list [label])) w) := by
  intro packed sparse
  have hop := hw _ _ first_switches.1
  have hop' := hw _ _ first_switches.2.1
  have hgoto := hw _ _ first_switches.2.2
  have ha := frame_action_started hop i
  have ha' := frame_action_started hop' i
  have hpackedTo : packed =
      outcome (jumpTo? (firstAction "packed-switch") (labelAt? labels (v - k))) (w.started (firstAction "packed-switch") i) := by
    have hsub := outcome_apply_int .sub v k (w.started (firstAction "packed-switch") i)
    rw [← outcome_branchAt_int]
    change outcome (perform _ _ _ _) _ = _
    rw [outcome_perform hop]
    change outcome (packedSwitch _ (.text name) (.text p)) _ = _
    rw [packedSwitch, bind_ok _ (outcome_switchAt ha hpacked)]
    dsimp only
    rw [pure_bind, bind_ok _ (outcome_registerIn ha hname), bind_ok _ (outcome_literal hfirst), bind_ok _ hsub]
  have hsparseTo : sparse =
      outcome (jumpTo? (firstAction "sparse-switch") (labelAt? labels (v - k))) (w.started (firstAction "sparse-switch") i) := by
    rw [← outcome_firstBranch_int hkeys hlength]
    change outcome (perform _ _ _ _) _ = _
    rw [outcome_perform hop']
    change outcome (sparseSwitch _ (.text name) (.text q)) _ = _
    rw [sparseSwitch, bind_ok _ (outcome_switchAt ha' hsparse), bind_ok _ (outcome_registerIn ha' hname)]
  rw [hpackedTo, hsparseTo]
  refine ⟨sameEffect_jumpTo? _ ha ha', fun hv => ?_, fun j label hv hlabel => ?_⟩
  · rw [labelAt?_eq_none_iff.mpr (by omega)]
    exact ⟨rfl, rfl⟩
  · have hat : labelAt? labels (v - k) = some label := by simpa [labelAt?, hv] using hlabel
    have hjump : outcome (perform run (firstAction "goto") i (.list [label])) w =
        outcome (jumpTo? (firstAction "goto") (some label)) (w.started (firstAction "goto") i) := by
      rw [outcome_perform hgoto]
      rfl
    rw [hat, hjump]
    exact ⟨sameEffect_jumpTo? _ ha (frame_action_started hgoto i), sameEffect_jumpTo? _ ha' (frame_action_started hgoto i)⟩

/-- A frame with the same two branches in both forms. -/
def twoBranches : Store :=
  { initial with frames := #[{ Frame.empty with
      registers := [("v0", .int 0)]
      labels := [(":below", 4), (":zero", 9)]
      switches := [(some ":packed", .packed (.text "-1") [.text ":below", .text ":zero"]),
        (some ":sparse", .sparse [(.text "-0x1", .text ":below"), (.text "0x0", .text ":zero")])] }] }

theorem switches_agree_zero :
    let packed := outcome (perform runner (firstAction "packed-switch") 0 (.texts ["v0", ":packed"])) twoBranches
    let sparse := outcome (perform runner (firstAction "sparse-switch") 0 (.texts ["v0", ":sparse"])) twoBranches
    SameEffect packed sparse ∧ (packed.2.frame 0).position = 9 := by
  have hkeys : Consecutive (-1) ["-0x1", "0x0"] := by
    intro j key hj
    match j, hj with
    | 0, rfl | 1, rfl => decide +kernel
  have hpacked : (twoBranches.frame 0).switches.get? (some ":packed") =
      some (.packed (.text "-1") [.text ":below", .text ":zero"]) := rfl
  exact ⟨(switches_agree (w := twoBranches) (i := 0) (fun _ _ h => h) runner rfl (by decide +kernel) hkeys rfl hpacked
    rfl).1, by decide +kernel⟩

end Dalvik.Store
