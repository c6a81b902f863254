import CodeTree.Text.Quoted

/-!
# Reading quoted text

Quoted text says what it quotes, and where it ends. A backslash begins an escape, the letter behind
it says which, and the digits of a code point end at a closing brace; every other character stands
for itself and is no quote. So the first character of a text is read back from its spelling
(`unescape?_escape`), the first quote that no backslash precedes is the closing one, and of two
quoted texts that begin alike neither goes on where the other has ended (`encode_append_inj`).
-/

namespace CodeTree.Quoted

def hexValue (digit : Char) : Nat :=
  if digit.isDigit then digit.toNat - '0'.toNat else digit.toNat - 'a'.toNat + 10

def codeOf (digits : List Char) : Nat :=
  digits.foldl (fun code digit => 16 * code + hexValue digit) 0

theorem hexValue_digitChar : ∀ n < 16, hexValue n.digitChar = n := by decide

theorem codeOf_hexDigits (n : Nat) : codeOf (hexDigits n) = n := by
  induction n using Nat.strongRecOn with
  | ind n ih =>
    rw [hexDigits, Nat.toDigits_eq_if (by decide)]
    split
    · next hlt =>
      rw [codeOf, List.foldl_cons, List.foldl_nil, hexValue_digitChar n hlt]
      omega
    · next hge =>
      have hrest := ih (n / 16) (by omega)
      rw [hexDigits, codeOf] at hrest
      rw [codeOf, List.foldl_append, hrest, List.foldl_cons, List.foldl_nil,
        hexValue_digitChar _ (Nat.mod_lt n (by decide))]
      omega

theorem closeBrace_not_mem_hexDigits (n : Nat) : '\x7d' ∉ hexDigits n := by
  induction n using Nat.strongRecOn with
  | ind n ih =>
    have hdigit : ∀ m : Nat, '\x7d' ≠ m.digitChar := fun m => (Nat.digitChar_ne _ rfl).symm
    rw [hexDigits, Nat.toDigits_eq_if (by decide)]
    split
    · rw [List.mem_singleton]
      exact hdigit n
    · rw [List.mem_append, List.mem_singleton, not_or]
      exact ⟨ih (n / 16) (by omega), hdigit _⟩

def unescapeLetter? : Char → Option Char
  | '"' => some '"'
  | '\\' => some '\\'
  | 't' => some '\t'
  | 'r' => some '\r'
  | 'n' => some '\n'
  | '0' => some '\x00'
  | _ => none

/-- The first character of a quoted text, and what comes behind its spelling. -/
def unescape? : List Char → Option (Char × List Char)
  | '\\' :: 'u' :: '\x7b' :: rest =>
    some (.ofNat (codeOf (rest.takeWhile (· ≠ '\x7d'))), (rest.dropWhile (· ≠ '\x7d')).tail)
  | '\\' :: letter :: rest => (unescapeLetter? letter).map (·, rest)
  | c :: rest => if c = '"' then none else some (c, rest)
  | [] => none

theorem unescape?_letter {letter c : Char} (h : unescapeLetter? letter = some c)
    (rest : List Char) : unescape? ('\\' :: letter :: rest) = some (c, rest) := by
  rw [unescape?, h]
  · rfl
  · rintro _ rfl -
    cases h

theorem unescape?_plain {c : Char} (hq : c ≠ '"') (hb : c ≠ '\\') (rest : List Char) :
    unescape? (c :: rest) = some (c, rest) := by
  rw [unescape?, if_neg hq]
  · exact fun _ he => absurd he hb
  · exact fun _ _ he => absurd he hb

theorem unescape?_code (c : Char) (rest : List Char) :
    unescape? (['\\', 'u', '\x7b'] ++ hexDigits c.toNat ++ ['\x7d'] ++ rest) = some (c, rest) := by
  have hdigits : ∀ digit ∈ hexDigits c.toNat, decide (digit ≠ '\x7d') = true := by
    intro digit hm
    rw [decide_eq_true_eq]
    rintro rfl
    exact closeBrace_not_mem_hexDigits c.toNat hm
  simp only [List.cons_append, List.nil_append, List.append_assoc, unescape?]
  rw [List.takeWhile_append_of_pos hdigits, List.dropWhile_append_of_pos hdigits,
    List.takeWhile_cons_of_neg (by simp), List.dropWhile_cons_of_neg (by simp), List.append_nil,
    codeOf_hexDigits, Char.ofNat_toNat, List.tail_cons]

/-- The spelling of a character is read back, whatever follows. -/
theorem unescape?_escape (c : Char) (rest : List Char) :
    unescape? (escape c ++ rest) = some (c, rest) := by
  rw [escape]
  split
  · next h => exact unescape?_letter (by rw [h]; rfl) rest
  next hq =>
  split
  · next h => exact unescape?_letter (by rw [h]; rfl) rest
  next hb =>
  split
  · next h => exact unescape?_letter (by rw [h]; rfl) rest
  split
  · next h => exact unescape?_letter (by rw [h]; rfl) rest
  split
  · next h => exact unescape?_letter (by rw [h]; rfl) rest
  split
  · next h => exact unescape?_letter (by rw [h]; rfl) rest
  split
  · exact unescape?_code c rest
  · exact unescape?_plain hq hb rest

theorem unescape?_quote (rest : List Char) : unescape? ('"' :: rest) = none := by
  simp [unescape?]

theorem flatMap_escape_append_inj {text other a b : List Char}
    (h : text.flatMap escape ++ '"' :: a = other.flatMap escape ++ '"' :: b) :
    text = other ∧ a = b := by
  induction text generalizing other with
  | nil =>
    cases other with
    | nil => exact ⟨rfl, (List.cons.inj h).2⟩
    | cons d others =>
      rw [List.flatMap_nil, List.nil_append, List.flatMap_cons, List.append_assoc] at h
      have hread := congrArg unescape? h
      rw [unescape?_quote, unescape?_escape] at hread
      cases hread
  | cons c text ih =>
    rw [List.flatMap_cons, List.append_assoc] at h
    cases other with
    | nil =>
      rw [List.flatMap_nil, List.nil_append] at h
      have hread := congrArg unescape? h
      rw [unescape?_quote, unescape?_escape] at hread
      cases hread
    | cons d others =>
      rw [List.flatMap_cons, List.append_assoc] at h
      have hread := congrArg unescape? h
      rw [unescape?_escape, unescape?_escape, Option.some.injEq, Prod.mk.injEq] at hread
      obtain ⟨rfl, hrest⟩ := hread
      obtain ⟨rfl, hafter⟩ := ih hrest
      exact ⟨rfl, hafter⟩

/-- A quoted text ends where it ends, whatever follows, and quotes one text only. -/
theorem encode_append_inj {text other a b : List Char}
    (h : encode text ++ a = encode other ++ b) : text = other ∧ a = b := by
  simp only [encode, List.cons_append, List.append_assoc, List.cons.injEq, true_and] at h
  exact flatMap_escape_append_inj h

end CodeTree.Quoted
