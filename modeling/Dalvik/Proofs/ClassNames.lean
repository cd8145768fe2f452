import Dalvik.Proofs.Signatures
import Mathlib.Data.List.DropRight

/-!
# Spellings of class names

The name of a class is written with dots, with slashes, or as a descriptor between `L` and `;`, each of them behind the
brackets of an array. `ClassName.spellings_meet` says exactly which of these spellings have the descriptor as their
normal form, and what the accessors give back of it: they drop the letter `L` wherever it stands.
-/

namespace Dalvik

open Dalvik.Text List

namespace Text

theorem getLast?_cutAt (c : Char) {part : List Char} (hpart : c ∉ part) (s : List Char) :
    (cutAt [c] 0 part s).getLast? = some ((part.reverse ++ s).rtakeWhile (· != c)) := by
  induction s generalizing part with
  | nil =>
    have hall : ∀ d ∈ part.reverse, (d != c) = true := by
      intro d hd
      rw [bne_iff_ne]
      rintro rfl
      exact hpart (mem_reverse.mp hd)
    rw [cutAt, append_nil, getLast?_singleton, rtakeWhile_eq_self_iff.mpr hall]
  | cons d s ih =>
    by_cases hd : d = c
    · subst hd
      have hstop : (part.reverse ++ d :: s).rtakeWhile (· != d) = s.rtakeWhile (· != d) := by
        rw [rtakeWhile, rtakeWhile]
        simp only [reverse_append, reverse_cons, reverse_reverse, append_assoc, singleton_append]
        rw [takeWhile_append]
        split
        · rename_i hlength
          simp [( takeWhile_prefix _).eq_of_length hlength]
        · rfl
      have hrest : (cutAt [d] 0 [] s).getLast? = some (s.rtakeWhile (· != d)) := ih not_mem_nil
      rw [cutAt, if_pos (by simp), getLast?_cons, hstop]
      exact congrArg (fun last? => some (last?.getD part.reverse)) hrest
    · rw [cutAt, if_neg (by simpa using Ne.symm hd), ih (by simpa using ⟨Ne.symm hd, hpart⟩)]
      simp

theorem getLastD_splitParts (s : String) :
    (splitParts "." s).getLastD "" = String.ofList (s.toList.rtakeWhile (· != '.')) := by
  have hlast : (parts ['.'] s.toList).getLast? = some (s.toList.rtakeWhile (· != '.')) :=
    getLast?_cutAt '.' not_mem_nil s.toList
  rw [splitParts, getLastD_eq_getLast?, show ".".toList = ['.'] from rfl, getLast?_map, hlast]
  rfl

theorem rtakeWhile_filter {c d : Char} (hcd : c ≠ d) (s : List Char) :
    (s.filter (· != d)).rtakeWhile (· != c) = (s.rtakeWhile (· != c)).filter (· != d) := by
  induction s using reverseRecOn with
  | nil => rfl
  | append_singleton s e ih =>
    by_cases hd : e = d
    · subst hd
      simp [hcd.symm, ih]
    · by_cases hc : e = c
      · subst hc
        simp [hd]
      · simp [hd, hc, ih]

theorem without_eq_self_iff (c : Char) (s : String) : without (· == c) s = s ↔ c ∉ s.toList := by
  have hlist : without (· == c) s = s ↔ s.toList.filter (fun d => !(d == c)) = s.toList := by
    rw [without, ← String.toList_inj, String.toList_ofList]
  rw [hlist, filter_eq_self]
  constructor
  · intro h hc
    simpa using h c hc
  · intro h d hd
    have hne : d ≠ c := by
      rintro rfl
      exact h hd
    simpa using hne

end Text

namespace Descriptor

theorem dotted_eq_map {s : List Char} (h : '>' ∉ s) : dotted s = s.map fun c => if c = '/' then '.' else c := by
  fun_induction dotted s with
  | case1 => rfl
  | case2 s ih => simp [ih fun hmem => h (.tail _ hmem)]
  | case3 s ih => simp at h
  | case4 c s hslash hpair ih => rw [map_cons, if_neg hslash, ih fun hmem => h (.tail _ hmem)]

/-! ### Bare names -/

/-- A name without marks, brackets and line breaks, which is not the letter of a primitive type. -/
structure IsBareName (name : List Char) : Prop where
  ne_nil : name ≠ []
  unmarked : ∀ c ∈ name, c ∉ [';', '(', '[', '>', '\n']
  ne_primitive : ∀ c ∈ primitives, name ≠ [c]

namespace IsBareName

variable {name : List Char} (h : IsBareName name)

include h

theorem map_slash : IsBareName (name.map slash) where
  ne_nil := by simpa using h.ne_nil
  unmarked := by
    intro c hc
    obtain ⟨d, hd, rfl⟩ := mem_map.mp hc
    by_cases hdot : d = '.'
    · simp [slash, hdot]
    · simpa [slash, hdot] using h.unmarked d hd
  ne_primitive := by
    intro c hc heq
    obtain ⟨d, rfl, rfl⟩ := map_eq_singleton_iff.mp heq
    have hslash : '/' ∉ primitives := by decide
    by_cases hdot : d = '.'
    · exact hslash (by simpa [slash, hdot] using hc)
    · exact h.ne_primitive d (by simpa [slash, hdot] using hc) rfl

theorem isPrimitive_eq_false (d : Nat) : isPrimitive (replicate d '[' ++ name) = false := by
  have hbracket : '[' ∉ name := fun hmem => h.unmarked _ hmem (by decide)
  have hcore : (replicate d '[' ++ name).dropWhile (· == '[') = name :=
    dropWhile_brackets d fun hhead => hbracket (mem_of_head? hhead)
  rw [← Bool.not_eq_true, isPrimitive_iff]
  rintro ⟨n, c, hc, tail, htail, heq⟩
  have hletter : ∀ c ∈ primitives, c ≠ '[' := by decide
  rw [heq, dropWhile_brackets n (by simpa using hletter c hc)] at hcore
  rcases htail with rfl | rfl
  · exact h.ne_primitive c hc hcore.symm
  · exact h.unmarked '\n' (by simp [← hcore]) (by decide)

/-- A bare name becomes the descriptor of what is kept of it. -/
theorem ofString_eq (d : Nat) : ∃ c rest x, name = c :: rest ∧
    ofString (String.ofList (replicate d '[' ++ name)) = .ok x ∧
    x.text = String.ofList (replicate d '['
      ++ 'L' :: ((if c = 'L' then rest else if d = 0 then name else [c]).map slash ++ [';'])) := by
  obtain ⟨c, rest, rfl⟩ := exists_cons_of_ne_nil h.ne_nil
  have hfree : ∀ m ∈ [';', '(', '['], m ∉ c :: rest := by
    intro m hm hmem
    refine h.unmarked m hmem ?_
    simp only [mem_cons, not_mem_nil, or_false] at hm ⊢
    tauto
  have hparen : '(' ∉ replicate d '[' ++ c :: rest := by
    simpa using hfree '(' (by decide)
  have hnormal := normal?_append (isFront_brackets d) (hfree '[' (by decide)) hparen (h.isPrimitive_eq_false d)
  have hfront : (replicate d '[').map slash = replicate d '[' := by
    rw [map_replicate]
    rfl
  have hmark : slash c = 'L' ↔ c = 'L' := by
    by_cases hdot : c = '.' <;> simp [slash, hdot]
  have hkept : keptName (replicate d '[') (slash c) (rest.map slash)
      = (if c = 'L' then rest else if d = 0 then c :: rest else [c]).map slash := by
    have hstop : ';' ∉ (if c = 'L' then rest else if d = 0 then c :: rest else [c]).map slash := by
      rw [mem_map_slash (by decide) (by decide)]
      intro hmem
      refine hfree ';' (by decide) ?_
      split_ifs at hmem
      · exact mem_cons_of_mem _ hmem
      · exact hmem
      · obtain rfl := mem_singleton.mp hmem
        exact mem_cons_self
    have hchosen : (if slash c = 'L' then rest.map slash else
        if replicate d '[' = [] then slash c :: rest.map slash else [slash c])
          = (if c = 'L' then rest else if d = 0 then c :: rest else [c]).map slash := by
      simp only [hmark, replicate_eq_nil_iff]
      split_ifs <;> rfl
    rw [keptName, hchosen, unstopped, if_neg fun hlast => hstop (mem_of_getLast? hlast)]
  rw [hfront, hkept] at hnormal
  exact ⟨c, rest, _, rfl, ofString_eq_ok_iff.mpr ⟨_, _, by rw [String.toList_ofList]; exact hnormal, rfl⟩, rfl⟩

end IsBareName

/-! ### Class names -/

/-- A class name that is written with dots. -/
structure ClassName where
  chars : List Char
  bare : IsBareName chars
  dots : '/' ∉ chars

namespace ClassName

variable (n : ClassName) (d : Nat)

/-- The name with dots, behind brackets. -/
def dotted : String :=
  String.ofList (replicate d '[' ++ n.chars)

/-- The name with slashes, behind brackets. -/
def slashed : String :=
  String.ofList (replicate d '[' ++ n.chars.map slash)

/-- The descriptor of the class, or of its arrays. -/
def descriptor : String :=
  String.ofList (replicate d '[' ++ 'L' :: (n.chars.map slash ++ [';']))

/-- What stands behind the last dot of the name, with the brackets when there is no dot. -/
def component : String :=
  String.ofList ((replicate d '[' ++ n.chars).rtakeWhile (· != '.'))

theorem mem_rtakeWhile_brackets :
    'L' ∈ (replicate d '[' ++ n.chars).rtakeWhile (· != '.') ↔ 'L' ∈ n.chars.rtakeWhile (· != '.') := by
  rw [rtakeWhile, rtakeWhile, mem_reverse, mem_reverse, reverse_append, takeWhile_append]
  split
  · rename_i hlength
    rw [mem_append, ( takeWhile_prefix _).eq_of_length hlength]
    have hnot : 'L' ∉ (replicate d '[').reverse.takeWhile (· != '.') := by
      intro hmem
      have hbracket := ( takeWhile_prefix _).subset hmem
      simp at hbracket
    exact or_iff_left hnot
  · rfl

theorem ofString_descriptor : ∃ x, ofString (n.descriptor d) = .ok x ∧ x.text = n.descriptor d := by
  have hfree : ∀ m ∈ ['(', '['], m ∉ n.chars.map slash := by
    intro m hm hmem
    refine n.bare.map_slash.unmarked m hmem ?_
    simp only [mem_cons, not_mem_nil, or_false] at hm ⊢
    tauto
  have hmarked : IsMarked (n.descriptor d).toList (replicate d '[') (n.chars.map slash) := by
    refine ⟨by rw [descriptor, String.toList_ofList], isFront_brackets d, hfree '[' (by decide), ?_, ?_⟩
    · simpa [descriptor] using dot_not_mem_map_slash n.chars
    · simpa [descriptor] using hfree '(' (by decide)
  exact ⟨_, ofString_eq_ok_iff.mpr ⟨_, _, hmarked.normal?_eq, rfl⟩, String.ofList_toList⟩

/-- A bare spelling leads to the descriptor when it neither starts with the mark nor loses all but its first character
behind brackets. -/
theorem ofString_bare {name : List Char} (h : IsBareName name) (hslash : name.map slash = n.chars.map slash) :
    ∃ y, ofString (String.ofList (replicate d '[' ++ name)) = .ok y ∧
      (y.text = n.descriptor d ↔ n.chars.head? ≠ some 'L' ∧ (d = 0 ∨ n.chars.length = 1)) := by
  obtain ⟨c, rest, y, rfl, hy, htext⟩ := h.ofString_eq d
  refine ⟨y, hy, ?_⟩
  have hlength : n.chars.length = rest.length + 1 := by
    simpa using (congrArg List.length hslash).symm
  have hhead : n.chars.head? = some 'L' ↔ c = 'L' := by
    have hmapped : (n.chars.map slash).head? = some 'L' ↔ slash c = 'L' := by simp [← hslash]
    have hmark (e : Char) : slash e = 'L' ↔ e = 'L' := by
      by_cases hdot : e = '.' <;> simp [slash, hdot]
    simpa [hmark] using hmapped
  have hsame : y.text = n.descriptor d
      ↔ (if c = 'L' then rest else if d = 0 then c :: rest else [c]).map slash = (c :: rest).map slash := by
    rw [htext, descriptor, hslash, String.ofList_inj]
    simp
  rw [hsame, ne_eq, hhead, hlength]
  split_ifs with hc hd
  · simp only [hc, not_true_eq_false, false_and, iff_false]
    exact fun heq => by simpa using congrArg List.length heq
  · simp [hc, hd]
  · cases rest <;> simp [hc, hd]

variable {n d} {x : Descriptor} (hx : x.text = n.descriptor d)

include hx

/-- What the accessors keep of a descriptor. -/
theorem filter_text : x.text.toList.filter (fun c => c != 'L' && c != ';')
    = replicate d '[' ++ (n.chars.filter (· != 'L')).map slash := by
  have hname : (n.chars.map slash).filter (fun c => c != 'L' && c != ';') = (n.chars.filter (· != 'L')).map slash := by
    rw [filter_map]
    refine congrArg (map slash) (filter_congr fun c hc => ?_)
    have hstop : c ≠ ';' := by
      rintro rfl
      exact n.bare.unmarked _ hc (by decide)
    by_cases hdot : c = '.' <;> simp [slash, hdot, hstop]
  rw [hx, descriptor]
  simp [hname]

theorem slashName_eq : x.slashName = without (· == 'L') (n.slashed d) := by
  have hfilter : x.text.toList.filter (fun c => !(c == 'L' || c == ';'))
      = x.text.toList.filter (fun c => c != 'L' && c != ';') :=
    filter_congr fun c _ => Bool.not_or _ _
  have hmap : (n.chars.map slash).filter (fun c => !(c == 'L')) = (n.chars.filter (· != 'L')).map slash := by
    rw [filter_map]
    refine congrArg (map slash) (filter_congr fun c _ => ?_)
    by_cases hdot : c = '.' <;> simp [slash, hdot, bne]
  rw [slashName, without, hfilter, filter_text hx, without, slashed]
  simp [hmap]

theorem prettyName_eq : x.prettyName = without (· == 'L') (n.dotted d) := by
  have harrow : '>' ∉ replicate d '[' ++ (n.chars.filter (· != 'L')).map slash := by
    rw [mem_append, mem_map_slash (by decide) (by decide), mem_filter]
    rintro (hmem | ⟨hmem, -⟩)
    · exact absurd (mem_replicate.mp hmem).2 (by decide)
    · exact n.bare.unmarked _ hmem (by decide)
  have hback : ((n.chars.filter (· != 'L')).map slash).map (fun c => if c = '/' then '.' else c)
      = n.chars.filter (· != 'L') := by
    rw [map_map]
    refine (map_congr_left fun c hc => ?_).trans (map_id _)
    have hne : c ≠ '/' := by
      rintro rfl
      exact n.dots (mem_filter.mp hc).1
    by_cases hdot : c = '.' <;> simp [slash, hdot, hne]
  rw [prettyName, filter_text hx, dotted_eq_map harrow, map_append, hback, without, dotted]
  simp [bne]

theorem simpleName_eq : x.simpleName = without (· == 'L') (n.component d) := by
  rw [simpleName, prettyName_eq hx, getLastD_splitParts, without, String.toList_ofList, dotted, String.toList_ofList,
    without, component, String.toList_ofList]
  exact congrArg String.ofList (rtakeWhile_filter (by decide) _)

omit hx

/-- The spellings of a class name meet in its descriptor unless the letter `L` is in the way. The descriptor is in
normal form. A bare spelling with dots or slashes leads to it exactly when it does not start with `L`, and when it
stands behind no bracket or is a single character. The accessors of the descriptor give back the name without its
letters `L`, so the name itself exactly when it has none. -/
theorem spellings_meet (n : ClassName) (d : Nat) : (∀ s ∈ [n.dotted d, n.slashed d], ∃ y, ofString s = .ok y ∧
      (y.text = n.descriptor d ↔ n.chars.head? ≠ some 'L' ∧ (d = 0 ∨ n.chars.length = 1))) ∧
    ∃ x, ofString (n.descriptor d) = .ok x ∧ x.text = n.descriptor d ∧
      (x.slashName = without (· == 'L') (n.slashed d) ∧ (x.slashName = n.slashed d ↔ 'L' ∉ n.chars)) ∧
      (x.prettyName = without (· == 'L') (n.dotted d) ∧ (x.prettyName = n.dotted d ↔ 'L' ∉ n.chars)) ∧
      (x.simpleName = without (· == 'L') (n.component d) ∧
        (x.simpleName = n.component d ↔ 'L' ∉ n.chars.rtakeWhile (· != '.'))) := by
  have hbare : ∀ s ∈ [n.dotted d, n.slashed d], ∃ y, ofString s = .ok y ∧
      (y.text = n.descriptor d ↔ n.chars.head? ≠ some 'L' ∧ (d = 0 ∨ n.chars.length = 1)) := by
    intro s hs
    rcases mem_pair.mp hs with rfl | rfl
    · exact n.ofString_bare d n.bare rfl
    · exact n.ofString_bare d n.bare.map_slash (map_slash_eq_self (dot_not_mem_map_slash n.chars))
  obtain ⟨x, hx, htext⟩ := n.ofString_descriptor d
  refine ⟨hbare, x, hx, htext, ⟨slashName_eq htext, ?_⟩, ⟨prettyName_eq htext, ?_⟩, simpleName_eq htext, ?_⟩
  · rw [slashName_eq htext, without_eq_self_iff, slashed, String.toList_ofList, mem_append,
      mem_map_slash (by decide) (by decide)]
    simp
  · rw [prettyName_eq htext, without_eq_self_iff, dotted, String.toList_ofList]
    simp
  · rw [simpleName_eq htext, without_eq_self_iff, component, String.toList_ofList, mem_rtakeWhile_brackets]

theorem array_spelling_misses : ∃ n : ClassName, n.dotted 1 = "[com.example.Class" ∧
    n.descriptor 1 = "[Lcom/example/Class;" ∧ ofString (n.dotted 1) = .ok ⟨"[Lc;", .array, 1⟩ :=
  ⟨⟨"com.example.Class".toList, ⟨by decide, by decide, by decide⟩, by decide⟩, by decide, by decide, by decide +kernel⟩

end ClassName

end Descriptor

end Dalvik
