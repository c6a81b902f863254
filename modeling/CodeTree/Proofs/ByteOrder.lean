import CodeTree.FileTree
import Mathlib.Data.List.Lex

/-!
# The order of names

Names are compared character by character. That is the order of their bytes: the encodings of two
characters differ at some byte, and there the greater character has the greater byte.
-/

namespace CodeTree.Path

/-- Whether one list of bytes comes before another in dictionary order. -/
abbrev BytesBefore : List UInt8 → List UInt8 → Prop := List.Lex (· < ·)

def bytes (name : String) : List UInt8 := name.toUTF8.data.toList

theorem bytes_eq (name : String) : bytes name = name.toList.flatMap String.utf8EncodeChar := by
  conv => lhs; rw [bytes, ← String.ofList_toList (s := name)]
  rw [String.toUTF8_eq_toByteArray, String.toByteArray_ofList]
  exact List.toList_data_toByteArray

theorem bytesBefore_cons {m n : Nat} {first second : List UInt8} (hn : n < 256) (hle : m ≤ n)
    (h : m = n → BytesBefore first second) :
    BytesBefore (UInt8.ofNat m :: first) (UInt8.ofNat n :: second) := by
  rcases Nat.lt_or_eq_of_le hle with hlt | rfl
  · apply List.Lex.rel
    rw [UInt8.lt_iff_toNat_lt, UInt8.toNat_ofNat', UInt8.toNat_ofNat']
    omega
  · exact .cons (h rfl)

theorem bytesBefore_utf8EncodeChar {c d : Char} (h : c < d) (first second : List UInt8) :
    BytesBefore (String.utf8EncodeChar c ++ first) (String.utf8EncodeChar d ++ second) := by
  have hlt : c.val.toNat < d.val.toNat := h
  have hd : d.val.toNat < 0x110000 := by
    have hvalid := d.valid
    rcases hvalid with hsmall | ⟨-, hlarge⟩
    · omega
    · exact hlarge
  simp only [String.utf8EncodeChar]
  generalize c.val.toNat = m at hlt
  generalize d.val.toNat = n at hlt hd
  -- A longer encoding starts with a greater byte; of two encodings of one length, the first byte at
  -- which they differ decides.
  split
  · split
    · exact bytesBefore_cons (by omega) (by omega) fun _ => by omega
    · split
      · exact bytesBefore_cons (by omega) (by omega) fun _ => by omega
      · split <;> exact bytesBefore_cons (by omega) (by omega) fun _ => by omega
  · rw [if_neg (by omega : ¬n ≤ 0x7f)]
    split
    · split
      · refine bytesBefore_cons (by omega) (by omega) fun _ => ?_
        exact bytesBefore_cons (by omega) (by omega) fun _ => by omega
      · split <;> exact bytesBefore_cons (by omega) (by omega) fun _ => by omega
    · rw [if_neg (by omega : ¬n ≤ 0x7ff)]
      split
      · split
        · refine bytesBefore_cons (by omega) (by omega) fun _ => ?_
          refine bytesBefore_cons (by omega) (by omega) fun _ => ?_
          exact bytesBefore_cons (by omega) (by omega) fun _ => by omega
        · exact bytesBefore_cons (by omega) (by omega) fun _ => by omega
      · rw [if_neg (by omega : ¬n ≤ 0xffff)]
        refine bytesBefore_cons (by omega) (by omega) fun _ => ?_
        refine bytesBefore_cons (by omega) (by omega) fun _ => ?_
        refine bytesBefore_cons (by omega) (by omega) fun _ => ?_
        exact bytesBefore_cons (by omega) (by omega) fun _ => by omega

/-- Names that stand in the order of their characters stand in the order of their bytes. -/
theorem bytesBefore_of_lt {a b : String} (h : a < b) : BytesBefore (bytes a) (bytes b) := by
  have hchars : List.Lex (· < ·) a.toList b.toList := h
  rw [bytes_eq, bytes_eq]
  generalize a.toList = first at hchars
  generalize b.toList = second at hchars
  induction hchars with
  | @nil d rest =>
    rw [List.flatMap_nil, List.flatMap_cons]
    cases hd : String.utf8EncodeChar d with
    | nil => exact absurd hd String.utf8EncodeChar_ne_nil
    | cons first others => exact .nil
  | @cons c rest rest' _ ih =>
    rw [List.flatMap_cons, List.flatMap_cons]
    exact List.Lex.append_left _ ih _
  | @rel c rest d rest' hlt =>
    rw [List.flatMap_cons, List.flatMap_cons]
    exact bytesBefore_utf8EncodeChar hlt _ _

end CodeTree.Path
