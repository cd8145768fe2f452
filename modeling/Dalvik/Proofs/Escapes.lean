import Dalvik.Proofs.Literals
import Dalvik.Proofs.Octets

/-!
# String literals with escape sequences

A character that is no printable ASCII character, a quote or a backslash can be written as the number of its code
point, behind `\u` in four hexadecimal digits and behind `\U` in eight (`escapeChar`). Reading goes from octet to
octet with a state, and the sequence of one character is read from the plain state back to it, whatever follows
(`unescapeFrom_escapeChar`). So a string that is written like this is read back (`parse_escapedLiteral`).
-/

namespace Dalvik

open Dalvik.Text Dalvik.Number Literal List

/-- The hexadecimal digits of a number, filled up with zeros; any letter may be a capital. -/
def paddedHex (capital : Nat → Bool) (width n : Nat) : List Char :=
  ((Nat.toDigits 16 n).leftpad width '0').mapIdx fun i c => if capital i then c.toUpper else c

/-- A character as it is written in a string literal. -/
def escapeChar (capital : Nat → Bool) (c : Char) : List Char :=
  if ' ' ≤ c ∧ c ≤ '~' ∧ c ≠ '"' ∧ c ≠ '\\' then [c]
  else if c.toNat ≤ 0xFFFF then '\\' :: 'u' :: paddedHex capital 4 c.toNat
  else '\\' :: 'U' :: paddedHex capital 8 c.toNat

/-- Characters as they are written in a string literal, with a choice of capitals for each of them. -/
def escapeChars (capital : Nat → Nat → Bool) (cs : List Char) : List Char :=
  (cs.mapIdx fun i => escapeChar (capital i)).flatten

/-- A string as a literal. -/
def escapedLiteral (capital : Nat → Nat → Bool) (s : String) : String :=
  String.ofList ('"' :: escapeChars capital s.toList ++ ['"'])

/-! ### Digits -/

variable (capital : Nat → Bool)

theorem exists_paddedHex {width n : Nat} (hwidth : 0 < width) (hn : n < 16 ^ width) :
    ∃ ds : List Digit, ds.length = width ∧ Number.ofDigits 16 (ds.map Digit.value) = n ∧
      paddedHex capital width n = ds.map Digit.char := by
  obtain ⟨vs, -, hlt, hdigits, hvalue⟩ := @Number.exists_digits 16 (by decide) n
  have hlength : vs.length ≤ width := by
    have := (Nat.length_toDigits_le_iff (b := 16) (by decide) hwidth).mpr hn
    simpa [hdigits] using this
  obtain ⟨ds, hvalues, hchars⟩ := @Digit.exists_map (replicate (width - vs.length) 0 ++ vs)
    (fun v hv => (mem_append.mp hv).elim (fun h => by rw [(mem_replicate.mp h).2]; decide) (hlt v)) capital
  refine ⟨ds, ?_, ?_, ?_⟩
  · rw [← length_map (f := Digit.value), hvalues, length_append, length_replicate]
    omega
  · rw [hvalues, WrittenInteger.ofDigits_eq, reverse_append, reverse_replicate,
      Nat.ofDigits_append_replicate_zero, ← WrittenInteger.ofDigits_eq, hvalue]
  · rw [hchars, paddedHex, hdigits, leftpad, length_map, map_append, map_replicate]
    rfl

theorem Digit.octet_char (d : Digit) :
    String.utf8EncodeChar d.char = [d.char.toNat.toUInt8] ∧ asciiHex? d.char.toNat.toUInt8 = some d.value ∧
      d.char ≠ '\n' := by
  have all : ∀ capital : Bool, ∀ v < 16,
      let c := if capital then v.digitChar.toUpper else v.digitChar
      String.utf8EncodeChar c = [c.toNat.toUInt8] ∧ asciiHex? c.toNat.toUInt8 = some v ∧ c ≠ '\n' := by
    decide +kernel
  exact all d.capital d.value d.lt

/-- A run of as many digits as are missing leads back to the plain state, if their number is a code point. -/
theorem unescapeFrom_digits {ds : List Digit} (hds : ds ≠ []) (v : Nat) (bs : List UInt8)
    (hv : (ds.map Digit.value).foldl (fun n d => 16 * n + d) v ≤ 0x10FFFF) :
    unescapeFrom (.hex ds.length v) (Source.encode (ds.map Digit.char) ++ bs)
      = (unescapeFrom .plain bs).map ((ds.map Digit.value).foldl (fun n d => 16 * n + d) v :: ·) := by
  induction ds generalizing v with
  | nil => exact absurd rfl hds
  | cons d ds ih =>
    obtain ⟨hoctet, hhex, -⟩ := d.octet_char
    have hcons : Source.encode ((d :: ds).map Digit.char) ++ bs
        = d.char.toNat.toUInt8 :: (Source.encode (ds.map Digit.char) ++ bs) := by
      simp [Source.encode, hoctet]
    rw [hcons, unescapeFrom, hhex]
    cases ds with
    | nil =>
      simp only [map_cons, map_nil, foldl_cons, foldl_nil] at hv ⊢
      rw [if_pos hv]
      rfl
    | cons d' ds => exact ih (by simp) (16 * v + d.value) hv

/-! ### Characters and strings -/

theorem Char.toNat_le_last (c : Char) : c.toNat ≤ 0x10FFFF := by
  rcases c.valid with h | h <;> simp only [Char.toNat] <;> omega

theorem unescapeFrom_sequence {mark : Char} {width : Nat} (c : Char) (bs : List UInt8)
    (hmark : (mark = 'u' ∧ width = 4) ∨ (mark = 'U' ∧ width = 8)) (hc : c.toNat < 16 ^ width) :
    unescapeFrom .plain (Source.encode ('\\' :: mark :: paddedHex capital width c.toNat) ++ bs)
      = (unescapeFrom .plain bs).map (c.toNat :: ·) := by
  obtain ⟨ds, hlength, hvalue, hchars⟩ := @exists_paddedHex capital width _ (by omega) hc
  have hds : ds ≠ [] := by
    rintro rfl
    simp only [length_nil] at hlength
    omega
  rw [Number.ofDigits] at hvalue
  have hrun := unescapeFrom_digits hds 0 bs (hvalue ▸ Char.toNat_le_last c)
  rw [hlength, hvalue] at hrun
  rw [hchars]
  rcases hmark with ⟨rfl, rfl⟩ | ⟨rfl, rfl⟩
  · exact hrun
  · exact hrun

/-- What a character is written as is read as the character, whatever follows. -/
theorem unescapeFrom_escapeChar (c : Char) (bs : List UInt8) :
    unescapeFrom .plain (Source.encode (escapeChar capital c) ++ bs) = (unescapeFrom .plain bs).map (c.toNat :: ·) := by
  unfold escapeChar
  split
  · rename_i hplain
    obtain ⟨-, hlast, -, hslash⟩ := hplain
    have hlt : c.toNat < 128 := Nat.lt_of_le_of_lt (Char.le_def.mp hlast) (by decide)
    have hoctet : Source.encode [c] = [c.toNat.toUInt8] := by
      simp [Source.encode, String.utf8EncodeChar, Nat.le_of_lt_succ hlt]
    have hvalue : c.toNat.toUInt8.toNat = c.toNat := by
      simp [Nat.mod_eq_of_lt (Nat.lt_trans hlt (by decide : 128 < 256))]
    have hne : c.toNat.toUInt8 ≠ 92 := by
      intro heq
      exact hslash (Char.toNat_inj.mp (hvalue.symm.trans (congrArg UInt8.toNat heq)))
    rw [hoctet, singleton_append, unescapeFrom, if_neg (by simpa using hne), hvalue]
  · split
    · exact unescapeFrom_sequence capital c bs (.inl ⟨rfl, rfl⟩) (by omega)
    · exact unescapeFrom_sequence capital c bs (.inr ⟨rfl, rfl⟩) (Nat.lt_of_le_of_lt (Char.toNat_le_last c) (by decide))

theorem unescapeFrom_escapeChars (capital : Nat → Nat → Bool) (cs : List Char) :
    unescapeFrom .plain (Source.encode (escapeChars capital cs)) = some (cs.map Char.toNat) := by
  induction cs generalizing capital with
  | nil => rfl
  | cons c cs ih =>
    have hcons : escapeChars capital (c :: cs)
        = escapeChar (capital 0) c ++ escapeChars (fun i => capital (i + 1)) cs := by
      simp [escapeChars]
    rw [hcons, Source.encode_append, unescapeFrom_escapeChar, ih]
    rfl

theorem lineFeed_not_mem_escapeChars (capital : Nat → Nat → Bool) (cs : List Char) : '\n' ∉ escapeChars capital cs := by
  intro hmem
  obtain ⟨l, hl, hfeed⟩ := mem_flatten.mp hmem
  obtain ⟨i, hi, rfl⟩ := mem_mapIdx.mp hl
  have hdigits {width n : Nat} (hwidth : 0 < width) (hn : n < 16 ^ width) : '\n' ∉ paddedHex (capital i) width n := by
    obtain ⟨ds, -, -, hchars⟩ := exists_paddedHex (capital i) hwidth hn
    rw [hchars]
    rintro hd
    obtain ⟨d, -, heq⟩ := mem_map.mp hd
    exact d.octet_char.2.2 heq
  unfold escapeChar at hfeed
  split at hfeed
  · rename_i hplain
    rw [← mem_singleton.mp hfeed] at hplain
    exact absurd hplain.1 (by decide)
  · split at hfeed
    · exact hdigits (by decide) (Nat.lt_succ_of_le ‹_›) (by simpa using hfeed : '\n' ∈ paddedHex _ 4 _)
    · exact hdigits (by decide) (Nat.lt_of_le_of_lt (Char.toNat_le_last _) (by decide))
        (by simpa using hfeed : '\n' ∈ paddedHex _ 8 _)

/-- The only form that a text in quotes fits is that of strings. -/
theorem find_form_quoted {t : List Char} (ht : '\n' ∉ t) :
    Form.all.find? (·.fits ('"' :: t ++ ['"'])) = some .string := by
  have hwhole : Descriptor.dropLineEnd ('"' :: t ++ ['"']) = '"' :: t ++ ['"'] := by
    rw [Descriptor.dropLineEnd, getLast?_concat, if_neg (by decide)]
  have hquoted : isQuoted '"' ('"' :: t ++ ['"']) = true := by
    rw [isQuoted, hwhole, getLast?_concat]
    simp [ht]
  have hother : isQuoted '\'' ('"' :: t ++ ['"']) = false := by
    rw [isQuoted, hwhole]
    simp
  have hinteger : afterInteger? ('"' :: t ++ ['"']) = none := rfl
  have hfraction : afterFraction? ('"' :: t ++ ['"']) = none := rfl
  simp only [Form.all, List.find?, Form.fits, hquoted, hother, hinteger, hfraction]
  rfl

/-- **Escaped string literals decode to the string**, with letters in either case in their escape sequences. -/
theorem parse_escapedLiteral (capital : Nat → Nat → Bool) (s : String) :
    parse (escapedLiteral capital s) = .ok (.text (.ofString s)) := by
  have hinner : Literal.inner ('"' :: escapeChars capital s.toList ++ ['"']) = escapeChars capital s.toList := by
    simp [Literal.inner]
  rw [Literal.parse, escapedLiteral, String.toList_ofList,
    find_form_quoted (lineFeed_not_mem_escapeChars capital s.toList)]
  simp only [Literal.Form.read, hinner, unescape?, Source.toList_toUTF8, String.toList_ofList, unescapeFrom_escapeChars]
  rfl

example : escapedLiteral (fun _ i => i == 3) "u\n𝄞\"" = "\"u\\u000A\\U0001d11e\\u0022\"" := by decide +kernel

end Dalvik
