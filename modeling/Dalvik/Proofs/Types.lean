import Dalvik.Proofs.Signatures
import Dalvik.Reader.Header

/-!
# Type names and method names

A type name is a primitive letter or a class name, either of them behind brackets, that can stand on a line as a word of
its own. It is in normal form already (`Descriptor.ofString_typeName`). A signature that is written with such names is a
word too, and is read back as what it was written from.
-/

namespace Dalvik

open Dalvik.Text List Descriptor

/-! ### Type names -/

/-- The characters that have a meaning of their own beside a type name. -/
def typeMarks : List Char := ['#', '.', '(', ')', ':', '\x7b', '\x7d', '>', '"']

/-- The characters of a class name. -/
def isNameChar (c : Char) : Bool :=
  !isBlank c && !typeMarks.contains c && c != ';' && c != '['

/-- A primitive letter, or a class name between `L` and `;`. -/
def isElementName : List Char → Bool
  | [c] => primitives.contains c
  | 'L' :: body => body.getLast? == some ';' && body.dropLast.all isNameChar
  | _ => false

/-- The names of types: an element behind any number of brackets. -/
def isTypeName (s : String) : Bool :=
  isElementName (s.toList.dropWhile (· == '['))

variable {s : String}

section

variable (h : isTypeName s = true)

include h

theorem exists_of_isTypeName : ∃ n core, s.toList = replicate n '[' ++ core ∧ ((∃ c ∈ primitives, core = [c]) ∨
        ∃ body, core = 'L' :: (body ++ [';']) ∧ ∀ c ∈ body, isNameChar c = true) := by
  obtain ⟨n, core, hs, hcore⟩ := exists_brackets s.toList
  refine ⟨n, core, hs, ?_⟩
  rw [isTypeName, hcore] at h
  unfold isElementName at h
  split at h
  · rename_i c
    exact .inl ⟨c, by simpa using h, rfl⟩
  · rename_i body _
    obtain ⟨hlast, hall⟩ : body.getLast? = some ';' ∧ ∀ c ∈ body.dropLast, isNameChar c = true := by
      simpa using h
    obtain ⟨front, rfl⟩ := getLast?_eq_some_iff.mp hlast
    exact .inr ⟨front, rfl, by simpa using hall⟩
  · cases h

theorem isSignatureType_of_isTypeName : isSignatureType s = true := by
  obtain ⟨n, core, hs, ⟨c, hc, rfl⟩ | ⟨body, rfl, hbody⟩⟩ := exists_of_isTypeName h
  · have hne : c ≠ '[' := by
      have all : ∀ c ∈ primitives, c ≠ '[' := by decide
      exact all c hc
    rw [isSignatureType, hs, dropWhile_brackets n (by simpa using hne)]
    simpa using hc
  · have hmarks : ∀ c ∈ body, (!contains [';', '.', '(', ')', '[', '>'] c) = true := by
      intro c hc
      have hname := hbody c hc
      simp [isNameChar, typeMarks] at hname ⊢
      tauto
    rw [isSignatureType, hs, dropWhile_brackets n (by simp)]
    cases body with
    | nil => rfl
    | cons c cs =>
      have hlast : (c :: cs ++ [';']).getLast? = some ';' := getLast?_concat
      have hfront : (c :: cs ++ [';']).dropLast = c :: cs := dropLast_concat
      simp only [cons_append] at hlast hfront ⊢
      rw [hlast, hfront, all_eq_true.mpr hmarks]
      rfl

theorem not_mem_typeName {c : Char} (hc : c ∈ s.toList) :
    isBlank c = false ∧ c ∉ typeMarks := by
  obtain ⟨n, core, hs, hcore⟩ := exists_of_isTypeName h
  rw [hs] at hc
  rcases mem_append.mp hc with hc | hc
  · obtain rfl := (mem_replicate.mp hc).2
    decide
  · rcases hcore with ⟨p, hp, rfl⟩ | ⟨body, rfl, hbody⟩
    · obtain rfl : c = p := by simpa using hc
      have all : ∀ c ∈ primitives, isBlank c = false ∧ c ∉ typeMarks := by decide
      exact all c hp
    · have hcases : c = 'L' ∨ c ∈ body ∨ c = ';' := by simpa using hc
      rcases hcases with rfl | hmem | rfl
      · decide
      · have hname := hbody c hmem
        simp only [isNameChar, Bool.and_eq_true, Bool.not_eq_true', contains_eq_mem,
          decide_eq_false_iff_not] at hname
        exact hname.1.1
      · decide

theorem typeName_ne_empty : s ≠ "" := by
  rintro rfl
  exact absurd h (by decide)

theorem isBare_typeName : IsBare s := by
  refine ⟨typeName_ne_empty h, fun c hc => ?_, fun hhead => ?_⟩
  · have hchar := not_mem_typeName h hc
    exact ⟨hchar.1, fun e => hchar.2 (by rw [e]; decide)⟩
  · exact (not_mem_typeName h (mem_of_head? hhead)).2 (by decide)

end

namespace Descriptor

theorem isDescriptor_typeName {s : String} (h : isTypeName s = true) : isDescriptor s = true := by
  obtain ⟨n, core, hs, ⟨c, hc, rfl⟩ | ⟨body, rfl, -⟩⟩ := exists_of_isTypeName h
  · simp [isDescriptor, isPrimitive_iff.mpr ⟨n, c, hc, [], .inl rfl, hs⟩]
  · have hblank : ∀ c ∈ body, isBlank c = false := fun c hc => (not_mem_typeName h (by rw [hs]; simp [hc])).1
    rw [isDescriptor, hs, isClassName_brackets n hblank, Bool.true_or]

theorem ofString_typeName {s : String} (h : isTypeName s = true) : ∃ kind dim, ofString s = .ok ⟨s, kind, dim⟩ :=
  ofString_signatureType (isSignatureType_of_isTypeName h)

theorem ofString_parens {s : String} (hopen : '(' ∈ s.toList) (hdots : '.' ∉ s.toList) :
    ∃ dim, ofString s = .ok ⟨s, .method, dim⟩ := by
  rcases normal?_cases s.toList with ⟨-, hnot, -⟩ | ⟨-, h⟩ | ⟨hnot, -⟩ | ⟨hnot, -⟩
  · exact absurd hopen hnot
  · rw [map_slash_eq_self hdots] at h
    exact ⟨s.toList.count '[', ofString_eq_ok_iff.mpr ⟨s.toList, .method, h, by simp⟩⟩
  · exact absurd hopen hnot
  · exact absurd hopen hnot

end Descriptor

namespace Signature

/-- The names of methods: the two special ones, and those without the marks of a signature. -/
def isMethodName (s : String) : Bool :=
  s == init || s == classInit || (s.toList.all fun c => !isBlank c && !contains ['#', '.', '(', ')', '<', '>'] c) &&
      s.toList.head? != some '"'

variable {name : String} {types : List String} {result : String} {c : Char}

theorem isSignatureName_of_isMethodName (h : isMethodName name = true) : isSignatureName name = true := by
  rcases Bool.or_eq_true _ _ ▸ h with hspecial | hplain
  · rw [isSignatureName, hspecial, Bool.true_or]
  · rw [isSignatureName, Bool.or_eq_true]
    refine .inr (all_eq_true.mpr fun c hc => ?_)
    have hchar := all_eq_true.mp (Bool.and_eq_true _ _ ▸ hplain).1 c hc
    simp at hchar ⊢
    tauto

theorem not_mem_methodName (h : isMethodName name = true) (hc : c ∈ name.toList) :
    isBlank c = false ∧ c ∉ ['#', '.', '(', ')'] := by
  rcases Bool.or_eq_true _ _ ▸ h with hspecial | hplain
  · have hall : ∀ c ∈ init.toList ++ classInit.toList, isBlank c = false ∧ c ∉ ['#', '.', '(', ')'] := by
      decide
    refine hall c (mem_append.mpr ?_)
    rcases Bool.or_eq_true _ _ ▸ hspecial with he | he
    · exact .inl (by rwa [← beq_iff_eq.mp he])
    · exact .inr (by rwa [← beq_iff_eq.mp he])
  · have hchar := all_eq_true.mp (Bool.and_eq_true _ _ ▸ hplain).1 c hc
    simp only [Bool.and_eq_true, Bool.not_eq_true', contains_eq_mem, decide_eq_false_iff_not] at hchar
    refine ⟨hchar.1, fun hbad => hchar.2 ?_⟩
    simp only [mem_cons, not_mem_nil, or_false] at hbad ⊢
    rcases hbad with h | h | h | h <;> simp [h]

theorem not_mem_typeNames (h : ∀ t ∈ types, isTypeName t = true)
    (hc : c ∈ types.flatMap String.toList) : isBlank c = false ∧ c ∉ typeMarks := by
  obtain ⟨t, ht, hct⟩ := mem_flatMap.mp hc
  exact not_mem_typeName (h t ht) hct

section

variable (hname : isMethodName name = true) (htypes : ∀ t ∈ types, isTypeName t = true)
  (hresult : isTypeName result = true)

include hname htypes hresult

theorem not_mem_written (hc : c ∈ (written name types result).toList) :
    isBlank c = false ∧ c ≠ '#' ∧ c ≠ '.' := by
  have hmarks : ∀ {c : Char}, isBlank c = false ∧ c ∉ typeMarks → isBlank c = false ∧ c ≠ '#' ∧ c ≠ '.' := by
    rintro c ⟨hblank, hmark⟩
    exact ⟨hblank, by rintro rfl; exact hmark (by decide), by rintro rfl; exact hmark (by decide)⟩
  rw [toList_written] at hc
  simp only [mem_append, mem_cons] at hc
  rcases hc with hc | rfl | hc | rfl | hc
  · obtain ⟨hblank, hmark⟩ := not_mem_methodName hname hc
    exact ⟨hblank, by rintro rfl; exact hmark (by decide), by rintro rfl; exact hmark (by decide)⟩
  · decide
  · exact hmarks (not_mem_typeNames htypes hc)
  · decide
  · exact hmarks (not_mem_typeName hresult hc)

theorem isBare_written : IsBare (written name types result) := by
  refine ⟨fun hempty => ?_, fun c hc => ?_, fun hhead => ?_⟩
  · have := congrArg String.toList hempty
    simp [toList_written] at this
  · have h := not_mem_written hname htypes hresult hc
    exact ⟨h.1, h.2.1⟩
  · rw [toList_written] at hhead
    cases hchars : name.toList with
    | nil => simp [hchars] at hhead
    | cons c cs =>
      obtain rfl : c = '"' := by simpa [hchars] using hhead
      rcases Bool.or_eq_true _ _ ▸ hname with hspecial | hplain
      · rcases Bool.or_eq_true _ _ ▸ hspecial with he | he
        · rw [beq_iff_eq.mp he] at hchars
          cases hchars
        · rw [beq_iff_eq.mp he] at hchars
          cases hchars
      · have := (Bool.and_eq_true _ _ ▸ hplain).2
        simp [hchars] at this

end

theorem isKeyword_written (name : String) (types : List String) (result : String) :
    Access.isKeyword (written name types result) = false := by
  have hall : ∀ k ∈ Access.keywords, '(' ∉ k.toList := by decide
  rw [Access.isKeyword, contains_eq_mem, decide_eq_false_iff_not]
  exact fun hmem => hall _ hmem (by simp [toList_written])

theorem ofString_written (hname : isMethodName name = true) (htypes : ∀ t ∈ types, isTypeName t = true)
    (hresult : isTypeName result = true) :
    ∃ dim, Descriptor.ofString (written name types result) = .ok ⟨written name types result, .method, dim⟩ :=
  Descriptor.ofString_parens (by simp [toList_written]) fun hc => (not_mem_written hname htypes hresult hc).2.2 rfl


end Signature

end Dalvik
