import ContextFree.File
import ContextFree.Proofs.Text

/-!
# Texts as bytes

The lines of a file are found among its bytes and each is decoded on its own; the lines of a text
are found among its characters. Both come to the same (`byteLines_encode`), as the bytes of a line
feed or a carriage return are part of no other character (`toByte_mem_utf8EncodeChar_iff`). So a
file is text if each of its lines is (`exists_encode_of_byteLines`).
-/

namespace ContextFree.Text

variable {c d : Char} {text line : List Char} {bytes : List UInt8} {byte : UInt8}

/-- A text as bytes, in UTF-8. -/
def encode (text : List Char) : List UInt8 :=
  text.flatMap String.utf8EncodeChar

/-! ## Decoding -/

theorem mk_encode (text : List Char) : ByteArray.mk (encode text).toArray = text.utf8Encode := by
  apply ByteArray.ext
  apply Array.toList_inj.mp
  exact List.toList_data_toByteArray.symm

/-- Bytes decode to the text that they encode. -/
theorem decodeText?_eq_some_iff : decodeText? bytes = some text ↔ encode text = bytes := by
  unfold decodeText? String.fromUTF8?
  constructor
  · intro h
    split at h
    · next hvalid =>
      obtain rfl := Option.some.inj h
      have hsame : ByteArray.mk (encode (String.fromUTF8 _ hvalid).toList).toArray =
          ByteArray.mk bytes.toArray := by
        rw [mk_encode, String.utf8Encode_toList]
        rfl
      exact List.toArray_inj (ByteArray.mk.inj hsame)
    · cases h
  · intro h
    obtain rfl := h
    have hvalid : (ByteArray.mk (encode text).toArray).IsValidUTF8 := ⟨text, mk_encode text⟩
    have hsame : String.fromUTF8 _ hvalid = String.ofList text := by
      apply String.toByteArray_inj.mp
      rw [String.toByteArray_ofList]
      exact mk_encode text
    rw [dif_pos hvalid, hsame, Option.map_some, String.toList_ofList]

theorem decodeText?_encode (text : List Char) : decodeText? (encode text) = some text :=
  decodeText?_eq_some_iff.mpr rfl

/-- Bytes that encode no text do not decode. -/
theorem decodeText?_eq_none_iff : decodeText? bytes = none ↔ ∀ text, encode text ≠ bytes := by
  rw [Option.eq_none_iff_forall_ne_some]
  exact forall_congr' fun text => not_congr decodeText?_eq_some_iff

/-! ## Characters of one byte -/

theorem utf8EncodeChar_of_lt (hc : c.toNat < 128) :
    String.utf8EncodeChar c = [UInt8.ofNat c.toNat] :=
  if_pos (Nat.le_of_lt_succ hc)

/-- Beyond the first 128 characters no byte is below 128. -/
theorem le_toNat_of_mem_utf8EncodeChar (hc : 128 ≤ c.toNat) (h : byte ∈ String.utf8EncodeChar c) :
    128 ≤ byte.toNat := by
  have hnot : ¬ c.val.toNat ≤ 127 := Nat.not_le_of_lt hc
  simp only [String.utf8EncodeChar, if_neg hnot] at h
  split at h
  · simp only [List.mem_cons, List.not_mem_nil, or_false] at h
    rcases h with rfl | rfl <;> rw [UInt8.toNat_ofNat'] <;> omega
  split at h
  · simp only [List.mem_cons, List.not_mem_nil, or_false] at h
    rcases h with rfl | rfl | rfl <;> rw [UInt8.toNat_ofNat'] <;> omega
  · simp only [List.mem_cons, List.not_mem_nil, or_false] at h
    rcases h with rfl | rfl | rfl | rfl <;> rw [UInt8.toNat_ofNat'] <;> omega

/-- The byte of one of the first 128 characters is part of no other character. -/
theorem toByte_mem_utf8EncodeChar_iff (hd : d.toNat < 128) :
    UInt8.ofNat d.toNat ∈ String.utf8EncodeChar c ↔ c = d := by
  have hbyte : (UInt8.ofNat d.toNat).toNat = d.toNat := by
    rw [UInt8.toNat_ofNat']
    omega
  by_cases hc : c.toNat < 128
  · rw [utf8EncodeChar_of_lt hc, List.mem_singleton, ← UInt8.toNat_inj, hbyte, UInt8.toNat_ofNat',
      ← Char.toNat_inj]
    omega
  · constructor
    · intro h
      have hle := le_toNat_of_mem_utf8EncodeChar (Nat.le_of_not_lt hc) h
      omega
    · intro h
      exact absurd (h ▸ hd) hc

/-- The byte of one of the first 128 characters is found where the character is. -/
theorem toByte_mem_encode_iff (hd : d.toNat < 128) :
    UInt8.ofNat d.toNat ∈ encode text ↔ d ∈ text := by
  simp only [encode, List.mem_flatMap, toByte_mem_utf8EncodeChar_iff hd, exists_eq_right]

/-! ## Lines -/

theorem encode_append (text rest : List Char) : encode (text ++ rest) = encode text ++ encode rest :=
  List.flatMap_append

theorem feed_mem_encode_iff : 10 ∈ encode text ↔ '\n' ∈ text :=
  toByte_mem_encode_iff (d := '\n') (by decide)

theorem ret_mem_encode_iff : 13 ∈ encode text ↔ '\r' ∈ text :=
  toByte_mem_encode_iff (d := '\r') (by decide)

theorem encode_append_feed (line rest : List Char) :
    encode (line ++ '\n' :: rest) = encode line ++ 10 :: encode rest :=
  encode_append line ('\n' :: rest)

theorem encode_append_ret (line : List Char) : encode (line ++ ['\r']) = encode line ++ [13] :=
  encode_append line ['\r']

/-- A line loses its carriage return, be it as bytes or as characters. -/
theorem dropFinal_encode (line : List Char) :
    dropFinal 13 (encode line) = encode (dropFinal '\r' line) := by
  rcases List.eq_nil_or_concat' line with rfl | ⟨front, c, rfl⟩
  · rfl
  by_cases hret : c = '\r'
  · subst hret
    rw [encode_append_ret, dropFinal_concat, dropFinal_concat]
  · have hchar : (front ++ [c]).getLast? ≠ some '\r' := by
      rw [List.getLast?_concat]
      exact fun heq => hret (Option.some.inj heq)
    have hbyte : (encode (front ++ [c])).getLast? ≠ some 13 := by
      have hne : encode [c] ≠ [] :=
        List.append_ne_nil_of_left_ne_nil String.utf8EncodeChar_ne_nil _
      rw [encode_append, List.getLast?_append_of_ne_nil _ hne]
      intro hlast
      have hmem := ret_mem_encode_iff.mp (List.mem_of_getLast? hlast)
      exact hret (List.mem_singleton.mp hmem).symm
    rw [dropFinal_of_getLast?_ne hchar, dropFinal_of_getLast?_ne hbyte]

/-- The lines of an encoded text are the encoded lines of the text. -/
theorem byteLines_encode (text : List Char) : byteLines (encode text) = (lines text).map encode := by
  induction text using lines_induction with
  | nil => rfl
  | last text hne hfeed =>
    have hne' : encode text ≠ [] := by
      obtain ⟨c, rest, rfl⟩ := List.exists_cons_of_ne_nil hne
      exact List.append_ne_nil_of_left_ne_nil String.utf8EncodeChar_ne_nil _
    rw [lines_of_not_mem hne hfeed]
    exact splitLines_of_not_mem hne' (mt feed_mem_encode_iff.mp hfeed)
  | feed line rest hline ih =>
    rw [encode_append_feed, lines_append_feed hline, List.map_cons, ← ih, ← dropFinal_encode]
    exact splitLines_append_feed (mt feed_mem_encode_iff.mp hline)

/-- Bytes of which each line is text are text. -/
theorem exists_encode_of_byteLines (h : ∀ line ∈ byteLines bytes, ∃ text, encode text = line) :
    ∃ text, encode text = bytes := by
  induction bytes using splitLines_induction (10 : UInt8) with
  | nil => exact ⟨[], rfl⟩
  | last bytes hne hfeed =>
    apply h
    rw [byteLines, splitLines_of_not_mem hne hfeed]
    exact List.mem_singleton_self _
  | line first rest hfeed ih =>
    rw [byteLines, splitLines_append_feed hfeed] at h
    obtain ⟨⟨text, htext⟩, hothers⟩ := List.forall_mem_cons.mp h
    obtain ⟨others, rfl⟩ := ih hothers
    rcases dropFinal_cases 13 first with hsame | hless
    · exact ⟨text ++ '\n' :: others, by rw [encode_append_feed, htext, hsame]⟩
    · exact ⟨text ++ ['\r'] ++ '\n' :: others, by
        rw [encode_append_feed, encode_append_ret, htext, ← hless]⟩

/-- Bytes that are no text have a line that is none. -/
theorem exists_mem_byteLines_of_not_text (h : ∀ text, encode text ≠ bytes) :
    ∃ line ∈ byteLines bytes, ∀ text, encode text ≠ line := by
  by_contra hall
  push Not at hall
  obtain ⟨text, htext⟩ := exists_encode_of_byteLines hall
  exact h text htext

end ContextFree.Text
