import Dalvik.Proofs.Words
import Mathlib.Data.List.Induction

/-!
# Normal forms of types

A text names a type by what stands behind its last bracket (`Descriptor.exists_front`). If it has no parentheses, its
normal form is brackets and a primitive letter, or something that ends with a bracket, a mark, a name and a stop
(`Descriptor.IsMarked`). Both are their own normal forms, so bringing a text into normal form twice is no more than
doing it once.
-/

namespace Dalvik.Descriptor

open Dalvik.Text List

variable {front name s rest : List Char} {c : Char}

/-! ### Brackets and names -/

/-- Nothing, or something that ends with a bracket. -/
def IsFront (front : List Char) : Prop :=
  front = [] ∨ front.getLast? = some '['

theorem exists_front (s : List Char) : ∃ front name, s = front ++ name ∧ IsFront front ∧ '[' ∉ name := by
  induction s using reverseRecOn with
  | nil => exact ⟨[], [], rfl, .inl rfl, not_mem_nil⟩
  | append_singleton s c ih =>
    obtain ⟨front, name, rfl, hfront, hname⟩ := ih
    by_cases hc : c = '['
    · subst hc
      exact ⟨front ++ name ++ ['['], [], by simp, .inr (by simp), not_mem_nil⟩
    · exact ⟨front, name ++ [c], by simp, hfront, by simpa [hname] using Ne.symm hc⟩

theorem afterBrackets_append {front name : List Char} (hfront : IsFront front) (hname : '[' ∉ name) :
    afterBrackets (front ++ name) = front.length := by
  have hfree : ∀ c ∈ name.reverse, (c != '[') = true := by
    intro c hc
    rw [bne_iff_ne]
    rintro rfl
    exact hname (mem_reverse.mp hc)
  have hstop : front.reverse.takeWhile (· != '[') = [] := by
    rcases hfront with rfl | hlast
    · rfl
    · obtain ⟨init, rfl⟩ := getLast?_eq_some_iff.mp hlast
      simp
  rw [afterBrackets, reverse_append, takeWhile_append_of_pos hfree, hstop]
  simp

theorem count_eq_zero_iff (hfront : IsFront front) (hname : '[' ∉ name) :
    (front ++ name).count '[' = 0 ↔ front = [] := by
  rw [count_eq_zero]
  constructor
  · intro h
    refine hfront.resolve_right fun hlast => h ?_
    exact mem_append_left _ (mem_of_getLast? hlast)
  · rintro rfl
    exact hname

/-- A slash for a dot. -/
def slash (c : Char) : Char :=
  if c == '.' then '/' else c

theorem mem_map_slash (hdot : c ≠ '.') (hslash : c ≠ '/') (s : List Char) : c ∈ s.map slash ↔ c ∈ s := by
  rw [mem_map]
  constructor
  · rintro ⟨d, hd, rfl⟩
    by_cases hdot : d = '.'
    · exact absurd (by rw [hdot]; rfl) hslash
    · simpa [slash, hdot] using hd
  · exact fun hc => ⟨c, hc, by simp [slash, hdot]⟩

theorem dot_not_mem_map_slash (s : List Char) : '.' ∉ s.map slash := by
  simp only [mem_map, slash, not_exists, not_and]
  intro c _
  split
  · decide
  · rename_i hc
    simpa using hc

theorem map_slash_eq_self (h : '.' ∉ s) : s.map slash = s := by
  refine (map_congr_left fun c hc => ?_).trans (map_id s)
  have hne : c ≠ '.' := by
    rintro rfl
    exact h hc
  simp [slash, hne]

theorem IsFront.map_slash (h : IsFront front) : IsFront (front.map slash) := by
  rcases h with rfl | h
  · exact .inl rfl
  · exact .inr (by simp [getLast?_map, h, slash])

theorem count_map_slash (s : List Char) : (s.map slash).count '[' = s.count '[' := by
  induction s with
  | nil => rfl
  | cons c s ih =>
    by_cases hc : c = '.'
    · simp [hc, slash, ih]
    · simp [slash, hc, count_cons, ih]

/-! ### Primitive types -/

theorem dropWhile_brackets (n : Nat) {core : List Char} (hcore : core.head? ≠ some '[') :
    (replicate n '[' ++ core).dropWhile (· == '[') = core := by
  rw [dropWhile_append_of_pos (by simp)]
  cases core with
  | nil => rfl
  | cons c cs =>
    have : c ≠ '[' := by simpa using hcore
    simp [this]

theorem exists_brackets (s : List Char) : ∃ n core, s = replicate n '[' ++ core ∧ s.dropWhile (· == '[') = core := by
  have hbrackets : s.takeWhile (· == '[') = replicate (s.takeWhile (· == '[')).length '[' := by
    refine eq_replicate_iff.mpr ⟨rfl, fun c hc => ?_⟩
    simpa using all_eq_true.mp all_takeWhile c hc
  refine ⟨(s.takeWhile (· == '[')).length, s.dropWhile (· == '['), ?_, rfl⟩
  rw [← hbrackets, takeWhile_append_dropWhile]

theorem isPrimitive_iff : isPrimitive s = true ↔
    ∃ n, ∃ c ∈ primitives, ∃ tail, (tail = [] ∨ tail = ['\n']) ∧ s = replicate n '[' ++ c :: tail := by
  have hletter : ∀ c ∈ primitives, c ≠ '[' ∧ c ≠ '\n' := by decide
  constructor
  · obtain ⟨n, core, hs, hcore⟩ := exists_brackets s
    intro h
    rw [isPrimitive, hcore] at h
    split at h
    · rename_i c heq
      refine ⟨n, c, by simpa using h, ?_⟩
      unfold dropLineEnd at heq
      split at heq
      · rename_i hlast
        obtain ⟨front, rfl⟩ := getLast?_eq_some_iff.mp hlast
        rw [dropLast_concat] at heq
        exact ⟨['\n'], .inr rfl, by rw [hs, heq]; rfl⟩
      · exact ⟨[], .inl rfl, by rw [hs, heq]⟩
    · cases h
  · rintro ⟨n, c, hc, tail, htail, rfl⟩
    rw [isPrimitive, dropWhile_brackets n (by simpa using (hletter c hc).1)]
    rcases htail with rfl | rfl
    · simpa [dropLineEnd, (hletter c hc).2] using hc
    · simpa [dropLineEnd] using hc

theorem isPrimitive_eq_false {a b : Char} (hab : a ≠ b) (ha : a ∈ s) (hb : b ∈ s)
    (hnot : a ≠ '[' ∧ a ≠ '\n' ∧ b ≠ '[' ∧ b ≠ '\n') : isPrimitive s = false := by
  rw [← Bool.not_eq_true, isPrimitive_iff]
  rintro ⟨n, c, -, tail, htail, rfl⟩
  have hletter : ∀ d, d ∈ replicate n '[' ++ c :: tail → d ≠ '[' → d ≠ '\n' → d = c := by
    intro d hd hbracket hbreak
    rcases htail with rfl | rfl <;> simpa [hbracket, hbreak] using hd
  exact hab ((hletter a ha hnot.1 hnot.2.1).trans (hletter b hb hnot.2.2.1 hnot.2.2.2).symm)

theorem isPrimitive_of_open (h : '(' ∈ s) : isPrimitive s = false := by
  rw [← Bool.not_eq_true, isPrimitive_iff]
  rintro ⟨n, c, hc, tail, htail, rfl⟩
  have hletter : ∀ c ∈ primitives, c ≠ '(' := by decide
  rcases htail with rfl | rfl <;> exact absurd h (by simpa using (hletter c hc).symm)

/-! ### Names of classes -/

/-- A text in the form of a class or of an array of classes: a mark, a name and a stop, behind nothing or something
that ends with a bracket. -/
structure IsMarked (t front name : List Char) : Prop where
  eq : t = front ++ 'L' :: (name ++ [';'])
  front : IsFront front
  name : '[' ∉ name
  dot : '.' ∉ t
  paren : '(' ∉ t

/-- A name without the stop behind it. -/
def unstopped (name : List Char) : List Char :=
  if name.getLast? = some ';' then name.dropLast else name

/-- What is kept of a name: all that is behind its mark; of a bare name all, but behind a bracket only the first
character; and no stop. -/
def keptName (front : List Char) (c : Char) (rest : List Char) : List Char :=
  unstopped (if c = 'L' then rest else if front = [] then c :: rest else [c])

theorem keptName_subset (front : List Char) (c : Char) (rest : List Char) : keptName front c rest ⊆ c :: rest := by
  have hunstopped (name : List Char) : unstopped name ⊆ name := by
    unfold unstopped
    split
    · exact dropLast_subset name
    · exact Subset.refl name
  refine Subset.trans (hunstopped _) ?_
  split
  · exact subset_cons_self _ _
  · split
    · exact Subset.refl _
    · simp

theorem addStop_marked (front name : List Char) :
    addStop (front ++ 'L' :: name) = front ++ 'L' :: (unstopped name ++ [';']) := by
  have hlast : (front ++ 'L' :: name).getLast? = some (name.getLast?.getD 'L') := by
    rw [getLast?_append, getLast?_cons]
    rfl
  rw [addStop, hlast, unstopped]
  cases hname : name.getLast? with
  | none => simp
  | some c =>
    by_cases hc : c = ';'
    · subst hc
      obtain ⟨init, rfl⟩ := getLast?_eq_some_iff.mp hname
      simp
    · simp [hc]

theorem addMark_append (hfront : IsFront front) (hname : '[' ∉ c :: rest) {dim : Nat} (hdim : dim = 0 ↔ front = []) :
    addMark dim (front ++ c :: rest)
      = some (front ++ 'L' :: if c = 'L' then rest else if front = [] then c :: rest else [c]) := by
  rw [addMark, afterBrackets_append hfront hname]
  by_cases hc : c = 'L'
  · simp [hc]
  · by_cases hempty : front = []
    · simp [hc, hempty, hdim.mpr hempty]
    · have hpos : 0 < dim := Nat.pos_of_ne_zero fun h => hempty (hdim.mp h)
      simp [hc, hempty, hpos]

theorem normal?_of_name (hparen : '(' ∉ s) (hprimitive : isPrimitive s = false) :
    normal? s = (addMark (s.count '[') (s.map slash)).map fun t => (addStop t, .classType) := by
  have hparen' : (s.map slash).contains '(' = false := by
    rw [contains_eq_mem, decide_eq_false_iff_not, mem_map_slash (by decide) (by decide)]
    exact hparen
  rw [normal?, hprimitive]
  change (if (s.map slash).contains '(' = true then _ else _) = _
  rw [hparen']
  rfl

theorem normal?_front (hfront : IsFront front) (hparen : '(' ∉ front) : normal? front = none := by
  have hprimitive : isPrimitive front = false := by
    rw [← Bool.not_eq_true, isPrimitive_iff]
    rintro ⟨n, c, hc, tail, htail, rfl⟩
    have hletter : ∀ c ∈ primitives, c ≠ '[' := by decide
    rcases hfront with hnil | hlast
    · simp at hnil
    · rcases htail with rfl | rfl
      · exact hletter c hc (by simpa using hlast)
      · simp at hlast
  rw [normal?_of_name hparen hprimitive, addMark]
  have hafter := @afterBrackets_append _ [] hfront.map_slash not_mem_nil
  rw [append_nil] at hafter
  rw [hafter]
  simp

theorem normal?_append (hfront : IsFront front) (hname : '[' ∉ c :: rest) (hparen : '(' ∉ front ++ c :: rest)
    (hprimitive : isPrimitive (front ++ c :: rest) = false) : normal? (front ++ c :: rest)
      = some (front.map slash ++ 'L' :: (keptName front (slash c) (rest.map slash) ++ [';']), .classType) := by
  have hname' : '[' ∉ slash c :: rest.map slash := by
    rw [← map_cons, mem_map_slash (by decide) (by decide)]
    exact hname
  rw [normal?_of_name hparen hprimitive, map_append, map_cons, addMark_append hfront.map_slash hname',
    Option.map_some, addStop_marked]
  · simp only [keptName, map_eq_nil_iff]
  · rw [count_eq_zero_iff hfront hname, map_eq_nil_iff]

theorem isMarked_of_append (hfront : IsFront front) (hname : '[' ∉ c :: rest) (hparen : '(' ∉ front ++ c :: rest) :
    IsMarked (front.map slash ++ 'L' :: (keptName front (slash c) (rest.map slash) ++ [';'])) (front.map slash)
      (keptName front (slash c) (rest.map slash)) := by
  have hsubset : keptName front (slash c) (rest.map slash) ⊆ (c :: rest).map slash := keptName_subset _ _ _
  refine ⟨rfl, hfront.map_slash, fun h => hname ?_, ?_, ?_⟩
  · exact (mem_map_slash (by decide) (by decide) _).mp (hsubset h)
  · simp only [mem_append, mem_cons, not_mem_nil, or_false, not_or]
    exact ⟨dot_not_mem_map_slash _, by decide, fun h => dot_not_mem_map_slash _ (hsubset h), by decide⟩
  · simp only [mem_append, mem_cons, not_mem_nil, or_false, not_or] at hparen ⊢
    refine ⟨?_, by decide, fun h => ?_, by decide⟩
    · rw [mem_map_slash (by decide) (by decide)]
      exact hparen.1
    · have hmem := (mem_map_slash (by decide) (by decide) _).mp (hsubset h)
      exact absurd hmem (by simpa using hparen.2)

theorem IsMarked.normal?_eq {t : List Char} (h : IsMarked t front name) : normal? t = some (t, .classType) := by
  have hname : '[' ∉ 'L' :: (name ++ [';']) := by simpa using h.name
  have hprimitive : isPrimitive t = false := by
    apply isPrimitive_eq_false (a := 'L') (b := ';') <;> simp [h.eq]
  have hkept : keptName front (slash 'L') ((name ++ [';']).map slash) = name.map slash := by
    have hstop : (name ++ [';']).map slash = name.map slash ++ [';'] := by rw [map_append]; rfl
    rw [hstop, keptName, if_pos (show slash 'L' = 'L' from rfl), unstopped, getLast?_concat, if_pos rfl, dropLast_concat]
  have hsame := map_slash_eq_self h.dot
  have hparen := h.paren
  rw [h.eq] at hprimitive hparen hsame ⊢
  rw [normal?_append h.front hname hparen hprimitive, hkept]
  have hslashed : (front ++ 'L' :: (name ++ [';'])).map slash = front.map slash ++ 'L' :: (name.map slash ++ [';']) := by
    rw [map_append, map_cons, map_append]
    rfl
  rw [← hslashed, hsame]

/-- What becomes of a text that is to be a type: brackets and a primitive letter stay, a signature gets slashes, a text
that ends where a name would start has no normal form, and anything else becomes the name of a class. -/
theorem normal?_cases (s : List Char) : isPrimitive s = true ∧ '(' ∉ s ∧ ¬IsFront s ∧ normal? s = some (s, .primitive) ∨
    '(' ∈ s ∧ normal? s = some (s.map slash, .method) ∨
    '(' ∉ s ∧ IsFront s ∧ normal? s = none ∨
    '(' ∉ s ∧ ¬IsFront s ∧ ∃ t front name, IsMarked t front name ∧ t.count '[' = s.count '[' ∧
      normal? s = some (t, .classType) := by
  by_cases hparen : '(' ∈ s
  · refine .inr (.inl ⟨hparen, ?_⟩)
    have hslashed : (s.map slash).contains '(' = true := by
      rw [contains_iff_mem, mem_map_slash (by decide) (by decide)]
      exact hparen
    rw [normal?, isPrimitive_of_open hparen]
    change (if (s.map slash).contains '(' = true then _ else _) = _
    rw [if_pos hslashed]
    rfl
  · by_cases hprimitive : isPrimitive s = true
    · refine .inl ⟨hprimitive, hparen, fun hfront => ?_, by rw [normal?, if_pos hprimitive]⟩
      have hnone := normal?_front hfront hparen
      rw [normal?, if_pos hprimitive] at hnone
      cases hnone
    · obtain ⟨front, name, rfl, hfront, hname⟩ := exists_front s
      cases name with
      | nil =>
        rw [append_nil] at hparen ⊢
        exact .inr (.inr (.inl ⟨hparen, hfront, normal?_front hfront hparen⟩))
      | cons c rest =>
        have hback : ¬IsFront (front ++ c :: rest) := by
          rintro (hnil | hlast)
          · simp at hnil
          · rw [getLast?_append, getLast?_cons, ← getLast?_cons] at hlast
            exact hname (mem_of_getLast? hlast)
        have hmarked := isMarked_of_append hfront hname hparen
        refine .inr (.inr (.inr ⟨hparen, hback, _, _, _, hmarked, ?_,
          normal?_append hfront hname hparen (by simpa using hprimitive)⟩))
        have hzero : count '[' ('L' :: (keptName front (slash c) (rest.map slash) ++ [';'])) = 0 :=
          count_eq_zero.mpr (by simpa using hmarked.name)
        rw [count_append, count_append, count_map_slash, hzero, count_eq_zero.mpr hname]

/-! ### Normal forms -/

variable {x : String} {d : Descriptor}

theorem ofString_eq_ok_iff : ofString x = .ok d ↔ ∃ t kind, normal? x.toList = some (t, kind) ∧
    d = ⟨String.ofList t, if 0 < x.toList.count '[' ∧ kind ≠ .method then .array else kind, x.toList.count '['⟩ := by
  rw [ofString]
  cases normal? x.toList with
  | none => simp
  | some p =>
    obtain ⟨t, kind⟩ := p
    constructor
    · intro h
      exact ⟨t, kind, rfl, (Except.ok.inj h).symm⟩
    · rintro ⟨t', kind', heq, rfl⟩
      obtain ⟨rfl, rfl⟩ := Prod.mk.inj (Option.some.inj heq)
      rfl

theorem ofString_eq_error_iff : (∃ f, ofString x = .error f) ↔ '(' ∉ x.toList ∧ IsFront x.toList := by
  have hnone : (∃ f, ofString x = .error f) ↔ normal? x.toList = none := by
    rw [ofString]
    cases normal? x.toList <;> simp
  rw [hnone]
  rcases normal?_cases x.toList with ⟨-, -, hfront, h⟩ | ⟨hparen, h⟩ | ⟨hparen, hfront, h⟩ | ⟨-, hfront, t, _, _, -, -, h⟩
  · simp [h, hfront]
  · simp [h, hparen]
  · simp [h, hparen, hfront]
  · simp [h, hfront]

section

variable (h : ofString x = .ok d)

include h

/-- The ways in which a text can name a type. -/
theorem ofString_cases : isPrimitive x.toList = true ∧ '(' ∉ x.toList ∧ d.text = x ∧ d.dim = x.toList.count '[' ∧
      d.kind = (if 0 < d.dim then .array else .primitive) ∨
    '(' ∈ x.toList ∧ d.text = String.ofList (x.toList.map slash) ∧ d.dim = x.toList.count '[' ∧ d.kind = .method ∨
    '(' ∉ x.toList ∧ ∃ front name, IsMarked d.text.toList front name ∧ d.dim = x.toList.count '[' ∧
      d.text.toList.count '[' = d.dim ∧ d.kind = (if 0 < d.dim then .array else .classType) := by
  obtain ⟨t, kind, hnormal, rfl⟩ := ofString_eq_ok_iff.mp h
  rcases normal?_cases x.toList with ⟨hprimitive, hparen, -, h⟩ | ⟨hparen, h⟩ | ⟨-, -, h⟩ |
    ⟨hparen, -, t', front, name, hmarked, hcount, h⟩
  · obtain ⟨rfl, rfl⟩ : x.toList = t ∧ Kind.primitive = kind := by simpa [h] using hnormal
    exact .inl ⟨hprimitive, hparen, by simp, rfl, by simp⟩
  · obtain ⟨rfl, rfl⟩ : x.toList.map slash = t ∧ Kind.method = kind := by simpa [h] using hnormal
    exact .inr (.inl ⟨hparen, rfl, rfl, by simp⟩)
  · rw [h] at hnormal
    cases hnormal
  · obtain ⟨rfl, rfl⟩ : t' = t ∧ Kind.classType = kind := by simpa [h] using hnormal
    exact .inr (.inr ⟨hparen, front, name, by simpa using hmarked, rfl, by simpa using hcount, by simp⟩)

/-- A normal form is its own normal form. -/
theorem ofString_text : ofString d.text = .ok d := by
  rw [ofString_eq_ok_iff]
  obtain ⟨text, kind, dim⟩ := d
  rcases ofString_cases h with ⟨-, -, rfl, -⟩ | ⟨hparen, rfl, rfl, rfl⟩ | ⟨-, front, name, hmarked, -, hcount, hkind⟩
  · exact ofString_eq_ok_iff.mp h
  · have hparen' : '(' ∈ x.toList.map slash := (mem_map_slash (by decide) (by decide) _).mpr hparen
    refine ⟨x.toList.map slash, .method, ?_, by simp [count_map_slash]⟩
    rcases normal?_cases (x.toList.map slash) with ⟨-, hnot, -⟩ | ⟨-, h'⟩ | ⟨hnot, -⟩ | ⟨hnot, -⟩
    · exact absurd hparen' hnot
    · simpa [map_slash_eq_self (dot_not_mem_map_slash _)] using h'
    · exact absurd hparen' hnot
    · exact absurd hparen' hnot
  · dsimp only at hcount hkind hmarked
    exact ⟨text.toList, .classType, hmarked.normal?_eq, by simp [hcount, hkind]⟩

/-! ### Elements of arrays -/

theorem kind_ne_array (hdim : d.dim = 0) : d.kind ≠ .array := by
  rcases ofString_cases h with ⟨-, -, -, -, hkind⟩ | ⟨-, -, -, hkind⟩ | ⟨-, _, _, -, -, -, hkind⟩ <;> simp [hkind, hdim]

/-- The elements of an array have a type, which is no array. -/
theorem elementType?_of_array (harray : d.kind = .array) :
    ∃ e, d.elementType? = .ok (some e) ∧ ofString e.text = .ok e ∧ e.elementType? = .ok none := by
  let y := without (· == '[') d.text
  have hfree : '[' ∉ y.toList := by simp [y, without]
  have hne : y.toList ≠ [] := by
    obtain ⟨c, hc, hbracket⟩ : ∃ c ∈ d.text.toList, c ≠ '[' := by
      rcases ofString_cases h with ⟨hprimitive, -, htext, -⟩ | ⟨-, -, -, hkind⟩ | ⟨-, front, name, hmarked, -⟩
      · obtain ⟨n, c, hc, tail, -, hx⟩ := isPrimitive_iff.mp hprimitive
        have hletter : ∀ c ∈ primitives, c ≠ '[' := by decide
        exact ⟨c, by rw [htext, hx]; simp, hletter c hc⟩
      · rw [hkind] at harray
        cases harray
      · exact ⟨'L', by rw [hmarked.eq]; simp, by decide⟩
    have hmem : c ∈ y.toList := by simp [y, without, hc, hbracket]
    exact ne_nil_of_mem hmem
  have hfront : ¬IsFront y.toList := by
    rintro (hnil | hlast)
    · exact hne hnil
    · exact hfree (mem_of_getLast? hlast)
  cases he : ofString y with
  | error f => exact absurd (ofString_eq_error_iff.mp ⟨f, he⟩).2 hfront
  | ok e =>
    have hdim : e.dim = 0 := by
      obtain ⟨t, kind, -, rfl⟩ := ofString_eq_ok_iff.mp he
      exact count_eq_zero.mpr hfree
    refine ⟨e, ?_, ofString_text he, ?_⟩
    · rw [elementType?, if_pos harray]
      exact congrArg (Except.map some) he
    · rw [elementType?, if_neg (kind_ne_array he hdim)]

/-! ### Texts that are descriptors -/

end

theorem isClassName_brackets (n : Nat) (h : ∀ c ∈ name, isBlank c = false) :
    isClassName (replicate n '[' ++ 'L' :: (name ++ [';'])) = true := by
  have hblank : isBlank ';' = false := by decide
  rw [isClassName, dropWhile_brackets n (by simp)]
  simp only [dropLineEnd, getLast?_cons, getLast?_concat, Option.getD_some, Option.some.injEq, reduceIte, Char.reduceEq]
  simpa [hblank] using h

theorem isDescriptor_text (h : ofString x = .ok d) (hblank : ∀ c ∈ x.toList, isBlank c = false)
    (hparen : '(' ∉ x.toList) (hfree : '[' ∉ x.toList.dropWhile (· == '[')) : isDescriptor d.text = true := by
  obtain ⟨n, core, hx, hcore⟩ := exists_brackets x.toList
  rw [hcore] at hfree
  have hfront : IsFront (replicate n '[') := by
    cases n with
    | zero => exact .inl rfl
    | succ n => exact .inr (by simp [replicate_succ'])
  obtain ⟨t, kind, hnormal, rfl⟩ := ofString_eq_ok_iff.mp h
  by_cases hprimitive : isPrimitive x.toList = true
  · rw [normal?, if_pos hprimitive] at hnormal
    obtain ⟨rfl, -⟩ := Prod.mk.inj (Option.some.inj hnormal)
    simp [isDescriptor, hprimitive]
  · rw [hx] at hparen hprimitive hnormal hblank
    cases core with
    | nil =>
      rw [append_nil] at hparen hnormal
      rw [normal?_front hfront hparen] at hnormal
      cases hnormal
    | cons c rest =>
      rw [normal?_append hfront hfree hparen (by simpa using hprimitive)] at hnormal
      obtain ⟨rfl, -⟩ := Prod.mk.inj (Option.some.inj hnormal)
      have hbrackets : (replicate n '[').map slash = replicate n '[' := by simp [slash]
      have hname : ∀ e ∈ keptName (replicate n '[') (slash c) (rest.map slash), isBlank e = false := by
        intro e he
        have hmem : e ∈ (c :: rest).map slash := keptName_subset _ _ _ he
        obtain ⟨b, hb, rfl⟩ := mem_map.mp hmem
        unfold slash
        split
        · decide
        · exact hblank b (mem_append_right _ hb)
      simp only [isDescriptor, String.toList_ofList, hbrackets, isClassName_brackets n hname, Bool.true_or]

/-- **Normal forms.** A text names no type exactly if it has no parenthesis and is empty or ends with a bracket. In all
other cases the normal form of its normal form is the same type with the same text, dimension and kind, and with that
the same signature and the same elements; the elements have a type of their own, which is in normal form and no array.
Texts with a parenthesis are signatures, and of the others those with a bracket are arrays. If there is no white space,
no parenthesis and no bracket but in front, the normal form is a descriptor. -/
theorem ofString_is_normal_form (x : String) :
    ((∃ f, ofString x = .error f) ↔ '(' ∉ x.toList ∧ (x = "" ∨ x.toList.getLast? = some '[')) ∧
    ∀ d, ofString x = .ok d → ofString d.text = .ok d ∧
      (d.kind = .method ↔ '(' ∈ x.toList) ∧ (d.kind = .array ↔ '(' ∉ x.toList ∧ '[' ∈ x.toList) ∧
      (∃ e?, d.elementType? = .ok e? ∧ (e?.isSome = true ↔ d.kind = .array) ∧
        ∀ e ∈ e?, ofString e.text = .ok e ∧ e.elementType? = .ok none) ∧
      ((∀ c ∈ x.toList, isBlank c = false) → '(' ∉ x.toList → '[' ∉ x.toList.dropWhile (· == '[') →
        isDescriptor d.text = true) := by
  have hempty : x.toList = [] ↔ x = "" := String.toList_eq_nil_iff
  refine ⟨by rw [ofString_eq_error_iff, IsFront, hempty], fun d h => ⟨ofString_text h, ?_, ?_, ?_,
    fun hblank hparen hfree => isDescriptor_text h hblank hparen hfree⟩⟩
  · rcases ofString_cases h with ⟨-, hparen, -, -, hkind⟩ | ⟨hparen, -, -, hkind⟩ | ⟨hparen, _, _, -, -, -, hkind⟩
    · simp only [hkind, hparen, iff_false]
      split <;> simp
    · simp [hkind, hparen]
    · simp only [hkind, hparen, iff_false]
      split <;> simp
  · rcases ofString_cases h with ⟨-, hparen, -, hdim, hkind⟩ | ⟨hparen, -, -, hkind⟩ |
      ⟨hparen, _, _, -, hdim, -, hkind⟩
    · simp [hkind, hdim, hparen]
    · simp [hkind, hparen]
    · simp [hkind, hdim, hparen]
  · by_cases harray : d.kind = .array
    · obtain ⟨e, he, htext, hnone⟩ := elementType?_of_array h harray
      refine ⟨some e, he, by simp [harray], fun e' he' => ?_⟩
      obtain rfl : e = e' := by simpa using he'
      exact ⟨htext, hnone⟩
    · exact ⟨none, by rw [elementType?, if_neg harray], by simp [harray], by simp⟩

/-- A text with dots, and with a bracket in its middle. -/
theorem ofString_is_normal_form_odd : ofString "a.b[c.d" = .ok ⟨"a/b[Lc;", .array, 1⟩ ∧
    ofString "a/b[Lc;" = .ok ⟨"a/b[Lc;", .array, 1⟩ ∧ isDescriptor "[Lc;" = true := by
  have hodd : ofString "a.b[c.d" = .ok ⟨"a/b[Lc;", .array, 1⟩ := by decide +kernel
  have hplain : ofString "[c.d" = .ok ⟨"[Lc;", .array, 1⟩ := by decide +kernel
  obtain ⟨-, h⟩ := ofString_is_normal_form "a.b[c.d"
  obtain ⟨-, h'⟩ := ofString_is_normal_form "[c.d"
  exact ⟨hodd, (h _ hodd).1, (h' _ hplain).2.2.2.2 (by decide +kernel) (by decide) (by decide)⟩

end Dalvik.Descriptor
