import Tsql.Proofs.SavedScripts
import Tsql.Proofs.Utf16Units

/-!
# Texts of stored scripts

What is stored as UTF-8 is read as the text it was made of, less one byte
order mark (`script?_bytesOf`, `script?_utf8Mark`). Anything else is read
by the mark it begins with, and without a mark byte by byte: then it has a
text in any case, and no two contents have the same one
(`windows1252Char_injective`). So there is a failure only where a mark
promises an encoding that the content does not keep
(`script?_eq_none_iff`).
-/

namespace Tsql

namespace Encoding

/-! ## Bytes as a list -/

theorem toList_loop (bytes : ByteArray) (i : Nat) (done : List UInt8) :
    ByteArray.toList.loop bytes i done = done.reverse ++ bytes.data.toList.drop i := by
  fun_induction ByteArray.toList.loop bytes i done with
  | case1 i done h ih =>
      have hi : i < bytes.data.toList.length := by rwa [Array.length_toList]
      rw [ih, List.drop_eq_getElem_cons hi]
      simp [ByteArray.get!, h]
  | case2 i done h =>
      rw [List.drop_eq_nil_of_le (by rw [Array.length_toList]; exact Nat.le_of_not_lt h)]
      simp

theorem toList_eq_data (bytes : ByteArray) : bytes.toList = bytes.data.toList := by
  rw [ByteArray.toList, toList_loop]
  rfl

theorem toList_injective {bytes bytes' : ByteArray} (h : bytes.toList = bytes'.toList) :
    bytes = bytes' := by
  rw [toList_eq_data, toList_eq_data, Array.toList_inj] at h
  exact ByteArray.ext h

theorem length_toList (bytes : ByteArray) : bytes.toList.length = bytes.size := by
  rw [toList_eq_data, Array.length_toList]
  rfl

/-! ## UTF-8 -/

theorem isValidUTF8_bytesOf (t : Text) : (bytesOf t).IsValidUTF8 := (String.ofList t).isValidUTF8

/-- Bytes are UTF-8 if they are those of a text. -/
theorem isValidUTF8_iff {bytes : ByteArray} : bytes.IsValidUTF8 ↔ ∃ t, bytes = bytesOf t := by
  constructor
  · rintro ⟨t, rfl⟩
    exact ⟨t, rfl⟩
  · rintro ⟨t, rfl⟩
    exact isValidUTF8_bytesOf t

theorem utf8?_bytesOf (t : Text) : utf8? (bytesOf t) = some t := by
  rw [utf8?, String.fromUTF8?, dif_pos (isValidUTF8_bytesOf t), Option.map_some]
  exact congrArg some (String.toList_ofList ..)

theorem utf8?_eq_none {bytes : ByteArray} (h : ¬ bytes.IsValidUTF8) : utf8? bytes = none := by
  rw [utf8?, String.fromUTF8?, dif_neg h, Option.map_none]

/-- A text without a mark is what its bytes are read as. -/
theorem script?_bytesOf (t : Text) : script? (bytesOf t) = some (withoutMark t) := by
  rw [script?, utf8?_bytesOf]

theorem script?_of_not_isValidUTF8 {bytes : ByteArray} (h : ¬ bytes.IsValidUTF8) :
    script? bytes = fallback? bytes.toList := by
  rw [script?, utf8?_eq_none h]

/-- The byte order mark as UTF-8. -/
def utf8Mark : ByteArray := ⟨#[0xEF, 0xBB, 0xBF]⟩

theorem toList_utf8Mark : utf8Mark.toList = [0xEF, 0xBB, 0xBF] := toList_eq_data utf8Mark

theorem bytesOf_byteOrderMark (t : Text) :
    bytesOf (byteOrderMark :: t) = utf8Mark ++ bytesOf t := by
  have hmark : bytesOf [byteOrderMark] = utf8Mark := by decide +kernel
  rw [← hmark, bytesOf, ← List.singleton_append, String.ofList_append]
  exact String.toByteArray_append ..

/-- One mark in front goes, whatever follows it. -/
theorem script?_utf8Mark (t : Text) : script? (utf8Mark ++ bytesOf t) = some t := by
  rw [← bytesOf_byteOrderMark, script?_bytesOf]
  rfl

/-! ## Bytes that are no UTF-8 -/

end Encoding

/-- The byte order mark in the order that it tells. -/
def Utf16.ByteOrder.mark : Utf16.ByteOrder → List UInt8
  | .little => [0xFF, 0xFE]
  | .big => [0xFE, 0xFF]

namespace Encoding

/-- The content begins with a byte order mark of UTF-8 or UTF-16. -/
def Marked (bytes : ByteArray) : Prop :=
  utf8Mark.toList <+: bytes.toList ∨ ∃ order : Utf16.ByteOrder, order.mark <+: bytes.toList

theorem fallback?_utf8Mark (rest : List UInt8) : fallback? (utf8Mark.toList ++ rest) = none := by
  rw [toList_utf8Mark]
  rfl

theorem fallback?_utf16Mark (order : Utf16.ByteOrder) (rest : List UInt8) :
    fallback? (order.mark ++ rest) = Utf16.decodeBytes? order rest := by
  cases order <;> rfl

theorem fallback?_of_not_marked {bytes : ByteArray} (h : ¬ Marked bytes) :
    fallback? bytes.toList = some (bytes.toList.map windows1252Char) := by
  rw [Marked, toList_utf8Mark, not_or, not_exists] at h
  obtain ⟨hutf8, hutf16⟩ := h
  generalize bytes.toList = content at hutf8 hutf16 ⊢
  unfold fallback?
  split
  · exact absurd ⟨_, rfl⟩ hutf8
  · exact absurd ⟨_, rfl⟩ (hutf16 .little)
  · exact absurd ⟨_, rfl⟩ (hutf16 .big)
  · rfl

/-! ## Windows-1252 -/

theorem windows1252Char_of_lt {b : UInt8} (h : b < 0x80) :
    windows1252Char b = Char.ofNat b.toNat := by
  rw [windows1252Char, if_neg (UInt8.not_le.mpr h), Option.getD_none]

/-- The byte that a character is read from. -/
def windows1252Byte (c : Char) : UInt8 :=
  if c.toNat < 0x100 then UInt8.ofNat c.toNat
  else UInt8.ofNat (0x80 + windows1252High.idxOf c.toNat)

theorem windows1252Byte_windows1252Char (b : UInt8) :
    windows1252Byte (windows1252Char b) = b := by
  have hbytes : ∀ n < 256, windows1252Byte (windows1252Char (UInt8.ofNat n)) = UInt8.ofNat n := by
    decide +kernel
  have hb := hbytes b.toNat b.toNat_lt
  rwa [UInt8.ofNat_toNat] at hb

theorem windows1252Char_injective : Function.Injective windows1252Char :=
  Function.LeftInverse.injective windows1252Byte_windows1252Char

/-! ## Failures -/

/-- A content has no text just if it is no UTF-8 and begins with a mark of
UTF-8, or with one of UTF-16 before what is no text in UTF-16. -/
theorem script?_eq_none_iff (bytes : ByteArray) :
    script? bytes = none ↔ ¬ bytes.IsValidUTF8 ∧
      (utf8Mark.toList <+: bytes.toList ∨
        ∃ (order : Utf16.ByteOrder) (rest : List UInt8), bytes.toList = order.mark ++ rest ∧
          ∀ t, rest ≠ Utf16.bytesOf order t) := by
  by_cases hvalid : bytes.IsValidUTF8
  · obtain ⟨t, rfl⟩ := isValidUTF8_iff.mp hvalid
    simp [script?_bytesOf, hvalid]
  · rw [script?_of_not_isValidUTF8 hvalid]
    simp only [hvalid, not_false_eq_true, true_and]
    constructor
    · intro hnone
      by_cases hmarked : Marked bytes
      · rcases hmarked with hutf8 | ⟨order, rest, hrest⟩
        · exact Or.inl hutf8
        · refine Or.inr ⟨order, rest, hrest.symm, fun t ht => ?_⟩
          rw [← hrest, fallback?_utf16Mark, Utf16.decodeBytes?_eq_some_iff.mpr ht] at hnone
          cases hnone
      · rw [fallback?_of_not_marked hmarked] at hnone
        cases hnone
    · rintro (⟨rest, hrest⟩ | ⟨order, rest, hrest, hnot⟩)
      · rw [← hrest, fallback?_utf8Mark]
      · rw [hrest, fallback?_utf16Mark, Option.eq_none_iff_forall_ne_some]
        intro t ht
        exact hnot t (Utf16.decodeBytes?_eq_some_iff.mp ht)

theorem getElem?_of_append_eq {a b p q : String} (i : Nat) (h : a ++ p = b ++ q)
    (ha : i < a.toList.length) (hb : i < b.toList.length) : a.toList[i]? = b.toList[i]? := by
  have hlists : a.toList ++ p.toList = b.toList ++ q.toList := by
    rw [← String.toList_append, h, String.toList_append]
  have hgets := congrArg (·[i]?) hlists
  rwa [List.getElem?_append_left ha, List.getElem?_append_left hb] at hgets

/-- A script that cannot be read is told from one that cannot be
rewritten. -/
theorem rewriteWording_ne (path : Text) (e : ReadError) :
    "Failed to rewrite " ++ String.ofList path ≠ e.message := by
  intro heq
  -- the wordings part after "Failed to re"
  have hpart := getElem?_of_append_eq 12 heq (by decide) (by decide)
  exact absurd hpart (by decide)

/-- A run says that a script has unreadable text just if its content has no
text. -/
theorem treat_unreadable_iff (pass : Pass) (level : Level) (script : ScriptFile)
    (bytes : ByteArray) :
    treat pass level script (.ok bytes) =
      .error (ReadError.failure ⟨script.path, .unreadableText⟩) ↔ script? bytes = none := by
  cases hscript : script? bytes with
  | none => simp [treat, hscript, Except.mapError, bind, Except.bind, throw, throwThe,
      MonadExceptOf.throw]
  | some text =>
      refine iff_of_false (fun heq => ?_) (by simp)
      simp only [treat, hscript, Except.mapError, bind, Except.bind] at heq
      cases hrun : pass.run level text with
      | ok outcome =>
          rw [hrun] at heq
          cases heq
      | error error =>
          rw [hrun] at heq
          exact rewriteWording_ne _ _ (congrArg Failure.message (Except.error.inj heq))

/-- Whatever a script file holds: UTF-8 is read as the text it is, less one
mark in front; without a mark, anything else is read byte by byte, ASCII as
it is and no two contents alike; and a failure, which is that of unreadable
text, comes only from a mark before what is not in its encoding. -/
theorem script_contents :
    (∀ (bytes : ByteArray) (h : bytes.IsValidUTF8),
      script? bytes = some (withoutMark (String.fromUTF8 bytes h).toList)) ∧
    (∀ t : Text, t.head? ≠ some byteOrderMark →
      script? (bytesOf t) = some t ∧ script? (utf8Mark ++ bytesOf t) = some t) ∧
    (∀ t : Text, script? (bytesOf (byteOrderMark :: t)) = some t) ∧
    (∀ bytes : ByteArray, ¬ bytes.IsValidUTF8 → ¬ Marked bytes →
      ∃ t, script? bytes = some t ∧ t.length = bytes.size ∧
        (∀ (i : Nat) (b : UInt8), bytes.toList[i]? = some b → b < 0x80 →
          t[i]? = some (Char.ofNat b.toNat)) ∧
        ∀ bytes' : ByteArray, ¬ bytes'.IsValidUTF8 → ¬ Marked bytes' →
          script? bytes' = some t → bytes' = bytes) ∧
    (∀ bytes : ByteArray, script? bytes = none ↔ ¬ bytes.IsValidUTF8 ∧
      (utf8Mark.toList <+: bytes.toList ∨
        ∃ (order : Utf16.ByteOrder) (rest : List UInt8), bytes.toList = order.mark ++ rest ∧
          ∀ t, rest ≠ Utf16.bytesOf order t)) ∧
    ∀ (pass : Pass) (level : Level) (script : ScriptFile) (bytes : ByteArray),
      treat pass level script (.ok bytes) =
        .error (ReadError.failure ⟨script.path, .unreadableText⟩) ↔ script? bytes = none := by
  refine ⟨fun bytes h => ?_, fun t ht => ⟨?_, script?_utf8Mark t⟩, fun t => ?_,
    fun bytes hvalid hmarked => ?_, script?_eq_none_iff, treat_unreadable_iff⟩
  · rw [script?, utf8?, String.fromUTF8?, dif_pos h, Option.map_some]
  · rw [script?_bytesOf, withoutMark, if_neg ht]
  · rw [bytesOf_byteOrderMark, script?_utf8Mark]
  · have hread : ∀ content : ByteArray, ¬ content.IsValidUTF8 → ¬ Marked content →
        script? content = some (content.toList.map windows1252Char) := by
      intro content hvalid hmarked
      rw [script?_of_not_isValidUTF8 hvalid, fallback?_of_not_marked hmarked]
    refine ⟨_, hread bytes hvalid hmarked, by rw [List.length_map, length_toList], ?_, ?_⟩
    · intro i b hb hlt
      rw [List.getElem?_map, hb, Option.map_some, windows1252Char_of_lt hlt]
    · intro bytes' hvalid' hmarked' hsame
      rw [hread bytes' hvalid' hmarked', Option.some.injEq] at hsame
      exact toList_injective (List.map_injective_iff.mpr windows1252Char_injective hsame)

/-- A quoted letter of Windows-1252. -/
def quotedLetter : ByteArray := ⟨#[0x27, 0xE9, 0x27]⟩

/-- A mark of UTF-16 before half a unit. -/
def halfUnit : ByteArray := ⟨#[0xFF, 0xFE, 0x41]⟩

theorem script_contents_letter :
    script? (utf8Mark ++ bytesOf ['é']) = some ['é'] ∧
    ¬ quotedLetter.IsValidUTF8 ∧ ¬ Marked quotedLetter ∧
    (∃ t, script? quotedLetter = some t ∧ t.length = 3 ∧ t[0]? = some '\'') ∧
    script? halfUnit = none := by
  have hvalid : ¬ quotedLetter.IsValidUTF8 := by decide +kernel
  have hmarked : ¬ Marked quotedLetter := by
    rintro (h | ⟨order, h⟩)
    · exact absurd h (by decide +kernel)
    · cases order with
      | little => exact absurd h (by decide +kernel)
      | big => exact absurd h (by decide +kernel)
  have hhalf : ∀ t, [0x41] ≠ Utf16.bytesOf .little t := by
    intro t ht
    cases Utf16.decodeBytes?_eq_some_iff.mpr ht
  obtain ⟨-, hutf8, -, hother, hfails, -⟩ := script_contents
  obtain ⟨t, ht, hlength, hascii, -⟩ := hother quotedLetter hvalid hmarked
  refine ⟨(hutf8 ['é'] (by decide)).2, hvalid, hmarked, ⟨t, ht, hlength, ?_⟩, ?_⟩
  · exact hascii 0 0x27 (by decide +kernel) (by decide)
  · exact (hfails halfUnit).mpr
      ⟨by decide +kernel, Or.inr ⟨.little, [0x41], by decide +kernel, hhalf⟩⟩

end Encoding

end Tsql
