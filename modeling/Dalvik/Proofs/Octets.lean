import Dalvik.Proofs.Unread

/-!
# Texts and their octets

A source can be handed over as a text, as a stream of text, or as octets, which are cut into lines before they
are decoded. In UTF-8 a line feed is one octet, and no other character has an octet of that value
(`Source.lineFeed_notMem_encode`). So cutting and encoding commute (`Source.cutLines_encode`), every line of an
encoded text can be decoded, and the three forms have the same lines. The main statement is
`Reader.visit_forms_agree`: nothing that a reader does depends on the form.
-/

namespace Dalvik

open List

namespace Source

/-- The octets of characters. -/
def encode (cs : List Char) : List UInt8 :=
  cs.flatMap String.utf8EncodeChar

theorem encode_append (cs ds : List Char) : encode (cs ++ ds) = encode cs ++ encode ds :=
  flatMap_append

theorem lineFeed_notMem_encode {c : Char} (hc : c ≠ '\n') : (10 : UInt8) ∉ String.utf8EncodeChar c := by
  have hv : c.val.toNat ≠ 10 := fun h => hc (Char.ext (UInt32.toNat_inj.mp h))
  intro hmem
  -- the octet of a small character is its code; all other octets are at least 128
  have hoctet : ∀ n : Nat, (10 : UInt8) = UInt8.ofNat n → n % 256 = 10 := by
    intro n h
    have := congrArg UInt8.toNat h
    simpa  using this.symm
  unfold String.utf8EncodeChar at hmem
  dsimp only at hmem
  split at hmem
  · have := hoctet _ (mem_singleton.mp hmem)
    omega
  · split at hmem
    · simp only [mem_cons, not_mem_nil, or_false] at hmem
      rcases hmem with h | h <;> have := hoctet _ h <;> omega
    · split at hmem
      all_goals simp only [mem_cons, not_mem_nil, or_false] at hmem
      · rcases hmem with h | h | h <;> have := hoctet _ h <;> omega
      · rcases hmem with h | h | h | h <;> have := hoctet _ h <;> omega

theorem cutLines_append {α : Type} {isEnd : α → Bool} {xs : List α} (h : ∀ x ∈ xs, isEnd x = false)
    (line ys : List α) : cutLines isEnd line (xs ++ ys) = cutLines isEnd (xs.reverse ++ line) ys := by
  induction xs generalizing line with
  | nil => rfl
  | cons x xs ih =>
    rw [cons_append, cutLines, if_neg (by simp [h x mem_cons_self]), ih fun y hy => h y (mem_cons_of_mem x hy)]
    simp

theorem cutLines_encode (line cs : List Char) :
    cutLines (· == 10) (encode line.reverse).reverse (encode cs) = (cutLines (· == '\n') line cs).map encode := by
  induction cs generalizing line with
  | nil =>
    cases line with
    | nil => rfl
    | cons c line =>
      simp only [encode, flatMap_nil, cutLines, isEmpty_reverse]
      rw [if_neg (by simp), reverse_reverse]
      rfl
  | cons c cs ih =>
    have hcons : encode (c :: cs) = String.utf8EncodeChar c ++ encode cs := flatMap_cons
    have hline : (encode (c :: line).reverse).reverse
        = (String.utf8EncodeChar c).reverse ++ (encode line.reverse).reverse := by
      simp [encode]
    by_cases hc : c = '\n'
    · subst hc
      have hfeed : String.utf8EncodeChar '\n' = [10] := by decide
      have hrest := ih []
      rw [hcons, hfeed, singleton_append, cutLines, if_pos (by decide), cutLines, if_pos (by decide), map_cons]
      congr 1
      have := congrArg reverse hline
      rw [hfeed] at this
      simpa using this.symm
    · have hnone : ∀ x ∈ String.utf8EncodeChar c, (x == 10) = false := by
        intro x hx
        have : x ≠ 10 := fun h => lineFeed_notMem_encode hc (h ▸ hx)
        simpa using this
      rw [hcons, cutLines_append hnone, ← hline, ih, cutLines, if_neg (by simpa using hc)]

theorem fromUTF8?_encode (cs : List Char) : String.fromUTF8? ⟨(encode cs).toArray⟩ = some (String.ofList cs) := by
  have hbytes : (⟨(encode cs).toArray⟩ : ByteArray) = (String.ofList cs).toByteArray := by
    rw [String.toByteArray_ofList]
    apply ByteArray.ext
    rw [utf8Encode, data_toByteArray]
    rfl
  rw [hbytes, String.fromUTF8?, dif_pos (String.ofList cs).isValidUTF8]
  rfl

theorem loop_toList (b : ByteArray) (i : Nat) (front : List UInt8) :
    ByteArray.toList.loop b i front = front.reverse ++ b.data.toList.drop i := by
  fun_induction ByteArray.toList.loop b i front with
  | case1 i front h ih =>
    have hi : i < b.data.toList.length := by simpa using h
    have hget : b.get! i = b.data.toList.get ⟨i, hi⟩ := by simp [ByteArray.get!, h]
    rw [ih, drop_eq_getElem_cons hi, reverse_cons, append_assoc, hget]
    rfl
  | case2 i front h =>
    rw [drop_eq_nil_of_le (by simpa using Nat.le_of_not_lt h), append_nil]

theorem toList_toUTF8 (s : String) : s.toUTF8.toList = encode s.toList := by
  have hdata : s.toUTF8.data.toList = encode s.toList := by
    rw [String.toUTF8_eq_toByteArray, ← String.utf8Encode_toList, utf8Encode, data_toByteArray]
    rfl
  rw [ByteArray.toList, loop_toList, hdata]
  rfl

theorem ofBytes_toUTF8 (s : String) : ofBytes s.toUTF8 = ofString s := by
  have hcut := cutLines_encode [] s.toList
  rw [ofBytes, toList_toUTF8, show (encode ([] : List Char).reverse).reverse = [] from rfl] at *
  rw [hcut, map_map]
  congr 1
  exact map_congr_left fun l _ => fromUTF8?_encode l

end Source

namespace Reader

variable {ν σ : Type} (r : Reader ν σ)

theorem visit_congr {input input' : Input} (hp : input.isPresent = input'.isPresent)
    (hs : input.source = input'.source) (root : Option ν) : r.visit input root = r.visit input' root := by
  unfold visit
  rw [hp, hs]

/-- A text that is not empty, its octets in UTF-8 and a stream of it are read alike, in every session: with the
same result or fault, the same constructs on the stack, and the same world of whoever listens. -/
theorem visit_forms_agree {s : String} (hs : s ≠ "") (root : Option ν) (q : Session ν σ) :
    outcome (r.visit (.octets s.toUTF8) root) q = outcome (r.visit (.text s) root) q ∧
      outcome (r.visit (.stream s) root) q = outcome (r.visit (.text s) root) q := by
  have htext : (Input.text s).isPresent = true := by simpa [Input.isPresent] using hs
  have hoctets : (Input.octets s.toUTF8).isPresent = true := by
    have hsize : s.toByteArray.size ≠ 0 := by simpa using hs
    simpa [Input.isPresent, ByteArray.isEmpty] using hsize
  constructor
  · rw [r.visit_congr (hoctets.trans htext.symm) (congrArg Except.ok (Source.ofBytes_toUTF8 s))]
  · rw [r.visit_congr (show (Input.stream s).isPresent = _ from htext.symm) rfl]

/-- A class whose name and comment need several octets for a character. -/
theorem visit_accented_class : ".class public Lé;\n# Größe\n" ≠ "" ∧
      (outcome ((Desk.recording .standard true).visit (.octets ".class public Lé;\n# Größe\n".toUTF8)
          (some (.recorder .classDef "a"))) ⟨⟨[]⟩, .start, [], .empty []⟩
        = outcome ((Desk.recording .standard true).visit (.text ".class public Lé;\n# Größe\n")
          (some (.recorder .classDef "a"))) ⟨⟨[]⟩, .start, [], .empty []⟩ ∧
      outcome ((Desk.recording .standard true).visit (.stream ".class public Lé;\n# Größe\n")
          (some (.recorder .classDef "a"))) ⟨⟨[]⟩, .start, [], .empty []⟩
        = outcome ((Desk.recording .standard true).visit (.text ".class public Lé;\n# Größe\n")
          (some (.recorder .classDef "a"))) ⟨⟨[]⟩, .start, [], .empty []⟩) :=
  ⟨by decide, visit_forms_agree _ (by decide) _ _⟩

end Reader

end Dalvik
