import Dalvik.Proofs.NormalForms
import Dalvik.Proofs.Words

/-!
# Signatures

A signature is a method name, behind the class that it belongs to or alone, the types of its parameters without
anything between them, and the type of its result (`Signature.written`). Types end by themselves, so a list of them falls
into its members again (`Signature.cutParameters_types`), and a signature is read back as what it was written from.
-/

namespace Dalvik

open Dalvik.Text List Descriptor

variable {c a b : Char} {front : List Char} {s : String}

/-! ### Searching and splitting -/

namespace Text

theorem find?_append (h : c ∉ front) (rest : List Char) : find? [c] (front ++ c :: rest) = some front.length := by
  induction front with
  | nil => simp [find?]
  | cons d front ih =>
    have hne : c ≠ d := by rintro rfl; exact h (.head _)
    simp [find?, hne, ih fun hmem => h (.tail _ hmem)]

theorem find?_pair_eq_none {s : List Char} (h : b ∉ s) : find? [a, b] s = none := by
  induction s with
  | nil => rfl
  | cons c s ih =>
    have hnot : [a, b].isPrefixOf (c :: s) = false := by
      cases s with
      | nil => simp [isPrefixOf]
      | cons d s =>
        have hne : b ≠ d := by rintro rfl; exact h (.tail _ (.head _))
        simp [isPrefixOf, hne]
    simp [find?, hnot, ih fun hmem => h (.tail _ hmem)]

theorem find?_pair_append_eq_none {s t : List Char} (hs : find? [a, b] s = none) (ht : b ∉ t) :
    find? [a, b] (s ++ t) = none := by
  induction s with
  | nil => exact find?_pair_eq_none ht
  | cons c s ih =>
    unfold find? at hs
    split at hs
    · cases hs
    · rename_i hnot
      have hnot' : [a, b].isPrefixOf (c :: s ++ t) = false := by
        cases s with
        | nil =>
          cases t with
          | nil => simp [isPrefixOf]
          | cons d t =>
            have hne : b ≠ d := by rintro rfl; exact ht (.head _)
            simp [isPrefixOf, hne]
        | cons d s => simpa [isPrefixOf] using hnot
      rw [cons_append, find?, ← cons_append, hnot', ih (by simpa using hs)]
      rfl

theorem find?_pair_append (hab : a ≠ b) (h : b ∉ front) (rest : List Char) :
    find? [a, b] (front ++ a :: b :: rest) = some front.length := by
  induction front with
  | nil => simp [find?]
  | cons d front ih =>
    have hnot : [a, b].isPrefixOf (d :: (front ++ a :: b :: rest)) = false := by
      cases front with
      | nil => simp [isPrefixOf, Ne.symm hab]
      | cons e front =>
        have hne : b ≠ e := by rintro rfl; exact h (.tail _ (.head _))
        simp [isPrefixOf, hne]
    rw [cons_append, find?, hnot, ih fun hmem => h (.tail _ hmem)]
    rfl

theorem cutAt_of_find? {sep s : List Char} (h : find? sep s = none) (part : List Char) :
    cutAt sep 0 part s = [part.reverse ++ s] := by
  induction s generalizing part with
  | nil => simp [cutAt]
  | cons c s ih =>
    unfold find? at h
    split at h
    · cases h
    · rename_i hnot
      rw [cutAt, if_neg hnot, ih (by simpa using h)]
      simp

theorem cutAt_break (c : Char) (part s t : List Char) :
    cutAt [c] 0 part (s ++ c :: t) = cutAt [c] 0 part s ++ parts [c] t := by
  induction s generalizing part with
  | nil => simp [cutAt, parts]
  | cons d s ih =>
    by_cases hd : c = d
    · subst hd
      simp [cutAt, ih]
    · simp [cutAt, hd, ih]

theorem cutAt_append (h : c ∉ front) (part rest : List Char) :
    cutAt [c] 0 part (front ++ c :: rest) = (part.reverse ++ front) :: parts [c] rest := by
  rw [cutAt_break, cutAt_of_find? (Line.find?_eq_none h), singleton_append]

theorem cutAt_pair_append (hab : a ≠ b) (h : b ∉ front) (part rest : List Char) :
    cutAt [a, b] 0 part (front ++ a :: b :: rest) = (part.reverse ++ front) :: parts [a, b] rest := by
  induction front generalizing part with
  | nil => simp [cutAt, parts]
  | cons d front ih =>
    have hnot : [a, b].isPrefixOf (d :: (front ++ a :: b :: rest)) = false := by
      cases front with
      | nil => simp [isPrefixOf, Ne.symm hab]
      | cons e front =>
        have hne : b ≠ e := by rintro rfl; exact h (.tail _ (.head _))
        simp [isPrefixOf, hne]
    rw [cons_append, cutAt, hnot, ih fun hmem => h (.tail _ hmem)]
    simp

theorem parts_intercalate {c : Char} {xs : List (List Char)} (h : ∀ x ∈ xs, c ∉ x) (hne : xs ≠ []) :
    parts [c] ([c].intercalate xs) = xs := by
  induction xs with
  | nil => exact absurd rfl hne
  | cons x xs ih =>
    have hx := h x mem_cons_self
    cases xs with
    | nil =>
      rw [intercalate_singleton, parts, cutAt_of_find? (Line.find?_eq_none hx)]
      simp
    | cons y ys =>
      rw [intercalate_cons_cons, append_assoc, singleton_append, parts, cutAt_append hx,
        ih (fun z hz => h z (mem_cons_of_mem _ hz)) (by simp)]
      simp

theorem halves_colon {a b : String} (ha : ':' ∉ a.toList) (hb : ':' ∉ b.toList) :
    halves ":" (a ++ ":" ++ b) = .ok (a, b) := by
  have hparts : parts [':'] ((a ++ ":" ++ b).toList) = [a.toList, b.toList] := by
    rw [parts]
    simp only [String.toList_append, append_assoc]
    rw [show ":".toList ++ b.toList = ':' :: b.toList from rfl, cutAt_append ha, parts,
      cutAt_of_find? (Line.find?_eq_none hb)]
    simp
  rw [halves, splitParts, show ":".toList = [':'] from rfl, hparts]
  simp

theorem halves_arrow {a b : String} (ha : '>' ∉ a.toList) (hb : occurs ['-', '>'] b.toList = false) :
    halves "->" (a ++ "->" ++ b) = .ok (a, b) := by
  have hfind : find? ['-', '>'] b.toList = none := by simpa [occurs] using hb
  have hparts : parts ['-', '>'] ((a ++ "->" ++ b).toList) = [a.toList, b.toList] := by
    rw [parts]
    simp only [String.toList_append, append_assoc]
    rw [show "->".toList ++ b.toList = '-' :: '>' :: b.toList from rfl,
      cutAt_pair_append (by decide) ha, parts, cutAt_of_find? hfind]
    simp
  rw [halves, splitParts, show "->".toList = ['-', '>'] from rfl, hparts]
  simp

end Text

/-! ### Types in signatures -/

/-- Whether a text can stand as a type in a signature: brackets, and a primitive letter or the name of a class between
`L` and `;`, in which the marks of signatures do not occur. -/
def isSignatureType (s : String) : Bool :=
  match s.toList.dropWhile (· == '[') with
  | [c] => primitives.contains c
  | 'L' :: body => body.getLast? == some ';' && body.dropLast.all fun c => !contains [';', '.', '(', ')', '[', '>'] c
  | _ => false

theorem exists_of_isSignatureType (h : isSignatureType s = true) : ∃ n core, s.toList = replicate n '[' ++ core ∧
      ((∃ c ∈ primitives, core = [c]) ∨
        ∃ body, core = 'L' :: (body ++ [';']) ∧ ∀ c ∈ body, c ∉ [';', '.', '(', ')', '[', '>']) := by
  obtain ⟨n, core, hs, hcore⟩ := exists_brackets s.toList
  refine ⟨n, core, hs, ?_⟩
  rw [isSignatureType, hcore] at h
  split at h
  · rename_i c
    exact .inl ⟨c, by simpa using h, rfl⟩
  · obtain ⟨hlast, hall⟩ := Bool.and_eq_true _ _ ▸ h
    obtain ⟨front, rfl⟩ := getLast?_eq_some_iff.mp (beq_iff_eq.mp hlast)
    refine .inr ⟨front, rfl, fun c hc => ?_⟩
    simpa using all_eq_true.mp hall c (by simpa using hc)
  · cases h

theorem not_mem_signatureType (h : isSignatureType s = true) (hc : c ∈ s.toList) : c ∉ ['.', '(', ')', '>'] := by
  obtain ⟨n, core, hs, hcore⟩ := exists_of_isSignatureType h
  rw [hs] at hc
  rcases mem_append.mp hc with hc | hc
  · obtain rfl := (mem_replicate.mp hc).2
    decide
  · rcases hcore with ⟨p, hp, rfl⟩ | ⟨body, rfl, hbody⟩
    · obtain rfl : c = p := by simpa using hc
      have all : ∀ c ∈ primitives, c ∉ ['.', '(', ')', '>'] := by decide
      exact all c hp
    · have hcases : c = 'L' ∨ c ∈ body ∨ c = ';' := by simpa using hc
      rcases hcases with rfl | hmem | rfl
      · decide
      · have hnot := hbody c hmem
        simp only [mem_cons, not_mem_nil, or_false, not_or] at hnot ⊢
        exact ⟨hnot.2.1, hnot.2.2.1, hnot.2.2.2.1, hnot.2.2.2.2.2⟩
      · decide

theorem Descriptor.isFront_brackets (n : Nat) : IsFront (replicate n '[') := by
  cases n with
  | zero => exact .inl rfl
  | succ n => exact .inr (by simp [replicate_succ'])

theorem Descriptor.ofString_signatureType (h : isSignatureType s = true) :
    ∃ kind dim, ofString s = .ok ⟨s, kind, dim⟩ := by
  have hnormal : ∃ kind, normal? s.toList = some (s.toList, kind) := by
    obtain ⟨n, core, hs, ⟨c, hc, rfl⟩ | ⟨body, rfl, hbody⟩⟩ := exists_of_isSignatureType h
    · have hprimitive : isPrimitive s.toList = true := isPrimitive_iff.mpr ⟨n, c, hc, [], .inl rfl, hs⟩
      exact ⟨.primitive, by rw [normal?, if_pos hprimitive]⟩
    · have hmarked : IsMarked s.toList (replicate n '[') body := by
        refine ⟨hs, isFront_brackets n, fun hmem => hbody _ hmem (by decide), fun hmem => ?_, fun hmem => ?_⟩
        · exact not_mem_signatureType h hmem (by decide)
        · exact not_mem_signatureType h hmem (by decide)
      exact ⟨.classType, hmarked.normal?_eq⟩
  obtain ⟨kind, hkind⟩ := hnormal
  exact ⟨_, _, ofString_eq_ok_iff.mpr ⟨s.toList, kind, hkind, by rw [String.ofList_toList]⟩⟩

namespace Signature

/-! ### Parameters -/

theorem cutParameters_brackets (n : Nat) (part rest : List Char) : cutParameters false part (replicate n '[' ++ rest)
      = cutParameters false (replicate n '[' ++ part) rest := by
  induction n generalizing part with
  | zero => rfl
  | succ n ih =>
    have hstep : cutParameters false part ('[' :: (replicate n '[' ++ rest))
        = cutParameters false ('[' :: part) (replicate n '[' ++ rest) := by
      rfl
    rw [replicate_succ, cons_append, hstep, ih]
    rw [← replicate_succ, replicate_succ', append_assoc, singleton_append]

theorem cutParameters_name {body : List Char} (h : ';' ∉ body) (part rest : List Char) :
    cutParameters true part (body ++ ';' :: rest) = (part.reverse ++ body ++ [';']) :: cutParameters false [] rest := by
  induction body generalizing part with
  | nil => simp [cutParameters]
  | cons c body ih =>
    have hstop : (c != ';') = true := by
      rw [bne_iff_ne]
      rintro rfl
      exact h mem_cons_self
    have hrest := ih (fun hmem => h (mem_cons_of_mem _ hmem)) (c :: part)
    rw [cons_append, cutParameters]
    by_cases hL : c = 'L'
    · simpa [hL] using hrest
    · simpa [hstop] using hrest

theorem cutParameters_type (h : isSignatureType s = true) (rest : List Char) :
    cutParameters false [] (s.toList ++ rest) = s.toList :: cutParameters false [] rest := by
  obtain ⟨n, core, hs, ⟨c, hc, rfl⟩ | ⟨body, rfl, hbody⟩⟩ := exists_of_isSignatureType h
  · have hne : c ≠ 'L' ∧ c ≠ '[' := by
      have all : ∀ c ∈ primitives, c ≠ 'L' ∧ c ≠ '[' := by decide
      exact all c hc
    rw [hs, append_assoc, cutParameters_brackets]
    simp [cutParameters, hne]
  · rw [hs, append_assoc, cutParameters_brackets, cons_append, cutParameters]
    simp only [beq_self_eq_true, if_true, append_assoc, singleton_append]
    rw [cutParameters_name fun hmem => hbody _ hmem (by decide)]
    simp

theorem cutParameters_types {types : List String} (h : ∀ t ∈ types, isSignatureType t = true) :
    cutParameters false [] (types.flatMap String.toList) = types.map String.toList := by
  induction types with
  | nil => rfl
  | cons t types ih =>
    rw [flatMap_cons, cutParameters_type (h t mem_cons_self), ih fun x hx => h x (mem_cons_of_mem _ hx), map_cons]

/-! ### Written signatures -/

/-- A signature as it is written. -/
def written (name : String) (types : List String) (result : String) : String :=
  name ++ "(" ++ String.join types ++ ")" ++ result

section Written

variable {name : String} {types : List String} {result : String}

theorem toList_written (name : String) (types : List String) (result : String) : (written name types result).toList
      = name.toList ++ '(' :: (types.flatMap String.toList ++ ')' :: result.toList) := by
  simp [written]

theorem not_mem_types (h : ∀ t ∈ types, isSignatureType t = true) (hc : c ∈ types.flatMap String.toList) :
    c ∉ ['.', '(', ')', '>'] := by
  obtain ⟨t, ht, hct⟩ := mem_flatMap.mp hc
  exact not_mem_signatureType (h t ht) hct

theorem find?_open (hname : '(' ∉ name.toList) (types : List String) (result : String) :
    find? ['('] (written name types result).toList = some name.toList.length := by
  rw [toList_written]
  exact find?_append hname _

theorem find?_close (hname : ')' ∉ name.toList) (htypes : ∀ t ∈ types, isSignatureType t = true) (result : String) :
    find? [')'] (written name types result).toList
      = some (name.toList ++ '(' :: types.flatMap String.toList).length := by
  rw [toList_written, ← cons_append, ← append_assoc]
  refine find?_append (fun hc => ?_) _
  simp only [mem_append, mem_cons] at hc
  rcases hc with hc | hc | hc
  · exact hname hc
  · exact absurd hc (by decide)
  · exact not_mem_types htypes hc (by decide)

theorem parameterTypes_written (hopen : '(' ∉ name.toList) (hclose : ')' ∉ name.toList)
    (htypes : ∀ t ∈ types, isSignatureType t = true) (result : String) :
    ∃ ds, (⟨written name types result⟩ : Signature).parameterTypes = .ok ds ∧ ds.map (·.text) = types := by
  have hinside : ((written name types result).toList.take
      (name.toList ++ '(' :: types.flatMap String.toList).length).drop (name.toList.length + 1)
        = types.flatMap String.toList := by
    rw [toList_written, ← cons_append, ← append_assoc, take_left]
    simp
  have hmap : ∃ ds, (types.map String.toList).mapM
      (fun p => ofString (String.ofList p)) = .ok ds ∧ ds.map (·.text) = types := by
    clear hinside
    induction types with
    | nil => exact ⟨[], rfl, rfl⟩
    | cons t types ih =>
      obtain ⟨ds, hds, htexts⟩ := ih fun x hx => htypes x (mem_cons_of_mem _ hx)
      obtain ⟨kind, dim, ht⟩ := ofString_signatureType (htypes t mem_cons_self)
      refine ⟨⟨t, kind, dim⟩ :: ds, ?_, by simp [htexts]⟩
      rw [map_cons, mapM_cons, String.ofList_toList, ht, hds]
      rfl
  rw [parameterTypes, find?_open hopen, find?_close hclose htypes]
  dsimp only
  rw [hinside, cutParameters_types htypes]
  exact hmap

theorem returnType_written (hclose : ')' ∉ name.toList) (htypes : ∀ t ∈ types, isSignatureType t = true)
    (hresult : isSignatureType result = true) :
    ∃ d, (⟨written name types result⟩ : Signature).returnType = .ok d ∧ d.text = result := by
  obtain ⟨kind, dim, hd⟩ := ofString_signatureType hresult
  have hrest : (written name types result).toList.drop
      ((name.toList ++ '(' :: types.flatMap String.toList).length + 1) = result.toList := by
    rw [toList_written, ← cons_append, ← append_assoc, ← drop_drop, drop_left]
    rfl
  refine ⟨⟨result, kind, dim⟩, ?_, rfl⟩
  rw [returnType, find?_close hclose htypes]
  dsimp only
  rw [hrest, String.ofList_toList, hd]

theorem descriptor_written (hopen : '(' ∉ name.toList) (types : List String) (result : String) :
    (⟨written name types result⟩ : Signature).descriptor = .ok ("(" ++ String.join types ++ ")" ++ result) := by
  have hrest : (written name types result).toList.drop name.toList.length
      = ("(" ++ String.join types ++ ")" ++ result).toList := by
    rw [toList_written]
    simp
  rw [descriptor, find?_open hopen]
  dsimp only
  rw [hrest, String.ofList_toList]

end Written

/-! ### Names and owners -/

/-- Whether a text can stand as the name of a method in a signature: the two special names, and those without
parentheses and angle brackets. -/
def isSignatureName (s : String) : Bool :=
  s == init || s == classInit || s.toList.all fun c => !contains ['(', ')', '<', '>'] c

/-- The name of a method behind the class that it belongs to, if there is one. -/
def qualified : Option String → String → String
  | none, name => name
  | some owner, name => owner ++ "->" ++ name

variable {name : String}

section

variable (h : isSignatureName name = true)

include h

theorem isSignatureName_cases : (name = init ∨ name = classInit) ∨ ∀ c ∈ name.toList, c ∉ ['(', ')', '<', '>'] := by
  rcases Bool.or_eq_true _ _ ▸ h with h | h
  · exact .inl ((Bool.or_eq_true _ _ ▸ h).imp beq_iff_eq.mp beq_iff_eq.mp)
  · exact .inr fun c hc => by simpa using all_eq_true.mp h c hc

theorem paren_not_mem : '(' ∉ name.toList ∧ ')' ∉ name.toList := by
  rcases isSignatureName_cases h with (rfl | rfl) | h
  · decide
  · decide
  · exact ⟨fun hc => h _ hc (by decide), fun hc => h _ hc (by decide)⟩

theorem find?_arrow : find? ['-', '>'] name.toList = none := by
  rcases isSignatureName_cases h with (rfl | rfl) | h
  · decide +kernel
  · decide +kernel
  · exact find?_pair_eq_none fun hc => h _ hc (by decide)

/-- Only the special names keep their angle brackets, and the others have none. -/
theorem plain_eq : (if name = init ∨ name = classInit then name else plainName name) = name := by
  rcases isSignatureName_cases h with hspecial | h
  · rw [if_pos hspecial]
  · have hplainName : plainName name = name := by
      rw [plainName, trimEnd, Line.dropEnd_eq_self, String.ofList_toList, trimStart, Line.dropStart_eq_self,
        String.ofList_toList]
      · intro c hc
        have hnot := h c (mem_of_head? hc)
        simp only [mem_cons, not_or] at hnot
        simpa using hnot.2.2.1
      · intro c hc
        have hnot := h c (mem_of_getLast? hc)
        simp only [mem_cons, not_or] at hnot
        simpa using hnot.2.2.2.1
    rw [hplainName, ite_self]

end

theorem toList_qualified (owner? : Option String) (name : String) : (qualified owner? name).toList
    = (owner?.elim [] fun owner => owner.toList ++ ['-', '>']) ++ name.toList := by
  cases owner? <;> simp [qualified]

variable {owner? : Option String} (howner : ∀ owner ∈ owner?, isSignatureType owner = true)

include howner

section

variable (h : isSignatureName name = true)

include h

theorem paren_not_mem_qualified : '(' ∉ (qualified owner? name).toList ∧ ')' ∉ (qualified owner? name).toList := by
  have hname := paren_not_mem h
  rw [toList_qualified]
  cases owner? with
  | none => exact hname
  | some owner =>
    have hmarks := fun c => not_mem_signatureType (howner owner rfl) (c := c)
    simp only [Option.elim_some, mem_append, mem_cons, not_mem_nil, or_false, not_or]
    exact ⟨⟨⟨fun hc => hmarks _ hc (by decide), by decide, by decide⟩, hname.1⟩,
      ⟨fun hc => hmarks _ hc (by decide), by decide, by decide⟩, hname.2⟩

theorem name_written (types : List String) (result : String) :
    (⟨written (qualified owner? name) types result⟩ : Signature).name = .ok name := by
  have hopen := (paren_not_mem_qualified howner h).1
  have hfront : (written (qualified owner? name) types result).toList.take (qualified owner? name).toList.length
      = (qualified owner? name).toList := by
    rw [toList_written, take_left]
  rw [Signature.name, find?_open hopen]
  dsimp only
  rw [hfront]
  cases owner? with
  | none =>
    rw [qualified, find?_arrow h]
    simp only [String.ofList_toList, plain_eq h]
  | some owner =>
    have harrow : '>' ∉ owner.toList := fun hc => not_mem_signatureType (howner owner rfl) hc (by decide)
    have hlist : (qualified (some owner) name).toList = owner.toList ++ '-' :: '>' :: name.toList := by
      simp [qualified]
    rw [hlist, find?_pair_append (by decide) harrow]
    simp [plain_eq h]

theorem owner?_written {types : List String}
    (htypes : ∀ t ∈ types, isSignatureType t = true) {result : String} (hresult : isSignatureType result = true) :
    ∃ d?, (⟨written (qualified owner? name) types result⟩ : Signature).owner? = .ok d? ∧ d?.map (·.text) = owner? := by
  have hrest : '>' ∉ '(' :: (types.flatMap String.toList ++ ')' :: result.toList) := by
    simp only [mem_cons, mem_append, not_or]
    exact ⟨by decide, fun hc => not_mem_types htypes hc (by decide), by decide,
      fun hc => not_mem_signatureType hresult hc (by decide)⟩
  have hnone := find?_pair_append_eq_none (find?_arrow h) hrest
  rw [Signature.owner?, splitParts, toList_written, toList_qualified, append_assoc]
  cases owner? with
  | none =>
    rw [Option.elim_none, nil_append, parts, show "->".toList = ['-', '>'] from rfl, cutAt_of_find? hnone]
    exact ⟨none, rfl, rfl⟩
  | some owner =>
    obtain ⟨kind, dim, hd⟩ := ofString_signatureType (howner owner rfl)
    have harrow : '>' ∉ owner.toList := fun hc => not_mem_signatureType (howner owner rfl) hc (by decide)
    rw [Option.elim_some, append_assoc, cons_append, singleton_append, parts,
      show "->".toList = ['-', '>'] from rfl, cutAt_pair_append (by decide) harrow, parts, cutAt_of_find? hnone]
    exact ⟨some ⟨owner, kind, dim⟩, by simp [hd, Except.map], rfl⟩

end

/-- **Signatures are decoded exactly.** From the text of a signature its name, the class that it belongs to, the types of
its parameters in order, the type of its result and its descriptor are read as they were written, and together they
give the text again. -/
theorem signature_decodes (hname : isSignatureName name = true) {types : List String}
    (htypes : ∀ t ∈ types, isSignatureType t = true) {result : String} (hresult : isSignatureType result = true)
    {s : Signature} (hs : s.text = written (qualified owner? name) types result) :
    s.name = .ok name ∧ s.descriptor = .ok ("(" ++ String.join types ++ ")" ++ result) ∧
    ∃ d? ds d, s.owner? = .ok d? ∧ s.parameterTypes = .ok ds ∧ s.returnType = .ok d ∧
      d?.map (·.text) = owner? ∧ ds.map (·.text) = types ∧ d.text = result ∧
      s.text = written (qualified (d?.map (·.text)) name) (ds.map (·.text)) d.text := by
  obtain ⟨text⟩ := s
  obtain rfl : text = _ := hs
  obtain ⟨hopen, hclose⟩ := paren_not_mem_qualified howner hname
  obtain ⟨d?, howner?, hd?⟩ := owner?_written howner hname htypes hresult
  obtain ⟨ds, hparameters, hds⟩ := parameterTypes_written hopen hclose htypes result
  obtain ⟨d, hreturn, hd⟩ := returnType_written hclose htypes hresult
  refine ⟨name_written howner hname types result, descriptor_written hopen types result, d?, ds, d, howner?,
    hparameters, hreturn, hd?, hds, hd, ?_⟩
  rw [hd?, hds, hd]

omit howner in
theorem signature_decodes_constructor : ∃ ds, (⟨"LCell;-><init>(I[[Lcom/List;J)V"⟩ : Signature).name = .ok "<init>" ∧
    (⟨"LCell;-><init>(I[[Lcom/List;J)V"⟩ : Signature).parameterTypes = .ok ds ∧
    ds.map (·.text) = ["I", "[[Lcom/List;", "J"] := by
  have howner : ∀ owner ∈ some "LCell;", isSignatureType owner = true := by
    intro owner h
    cases h
    decide
  obtain ⟨hname, -, d?, ds, d, -, hparameters, -, -, hds, -⟩ :=
    @signature_decodes "<init>" (some "LCell;") howner (by decide) ["I", "[[Lcom/List;", "J"] (by decide) "V" (by decide)
      ⟨"LCell;-><init>(I[[Lcom/List;J)V"⟩ (by decide)
  exact ⟨ds, hname, hparameters, hds⟩

end Signature

end Dalvik
