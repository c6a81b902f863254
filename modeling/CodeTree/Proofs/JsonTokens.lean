import CodeTree.Json.Printer
import CodeTree.Json.Token
import Mathlib.Data.List.Forall2

/-!
# Tokens of printed text

What is printed is split into the tokens that it was printed from. A number ends where no number
character follows, so a text that ends in one can be put in front of some texts only (`Scans`), and a
text that starts with anything else can be put behind all of them (`Breaks`). Printed text is put
together from these two.
-/

namespace CodeTree.Json

variable {text first second rest : List Char} {tokens tokens' : List Token} {token : Token} {c : Char}

theorem tokensWithin?_mono {bound bound' : Nat} (hle : bound ≤ bound')
    (h : tokensWithin? bound text = some tokens) : tokensWithin? bound' text = some tokens := by
  induction bound generalizing bound' text tokens with
  | zero =>
    cases text with
    | nil => cases bound' <;> exact h
    | cons c rest => cases h
  | succ bound ih =>
    obtain ⟨bound', rfl⟩ : ∃ b, bound' = b + 1 := ⟨bound' - 1, by omega⟩
    cases text with
    | nil => exact h
    | cons c rest =>
      rw [tokensWithin?] at h ⊢
      split at h
      · next hb =>
        rw [if_pos hb]
        exact ih (Nat.le_of_succ_le_succ hle) h
      · next hb =>
        obtain ⟨⟨token, after⟩, htoken, hafter⟩ := Option.bind_eq_some_iff.1 h
        obtain ⟨more, hmore, heq⟩ := Option.bind_eq_some_iff.1 hafter
        rw [if_neg hb]
        exact Option.bind_eq_some_iff.2 ⟨_, htoken, Option.bind_eq_some_iff.2
          ⟨more, ih (Nat.le_of_succ_le_succ hle) hmore, heq⟩⟩

theorem tokens?_blank (h : isBlank c = true) : tokens? (c :: rest) = tokens? rest := by
  rw [tokens?, List.length_cons, tokensWithin?, if_pos h]
  rfl

theorem tokens?_cons {after : List Char} (hb : isBlank c = false)
    (ht : token? c rest = some (token, after)) (hle : after.length ≤ rest.length)
    (h : tokens? after = some tokens) : tokens? (c :: rest) = some (token :: tokens) := by
  rw [tokens?, List.length_cons, tokensWithin?, if_neg (by simp [hb]), ht]
  exact Option.bind_eq_some_iff.2 ⟨_, rfl, Option.bind_eq_some_iff.2
    ⟨tokens, tokensWithin?_mono hle h, rfl⟩⟩

def Stops (text : List Char) : Prop := ∀ c ∈ text.head?, isNumberChar c = false

/-- Whether a text in front of which a number may end, or nothing, is split into tokens. -/
def Scans (text : List Char) (tokens : List Token) : Prop :=
  ∀ rest more, Stops rest → tokens? rest = some more → tokens? (text ++ rest) = some (tokens ++ more)

/-- Whether a text is split into tokens wherever it stands, and ends a number before it. -/
structure Breaks (text : List Char) (tokens : List Token) : Prop where
  stops : ∀ rest, Stops (text ++ rest)
  splits : ∀ rest more, tokens? rest = some more → tokens? (text ++ rest) = some (tokens ++ more)

theorem scans_nil : Scans [] [] := fun _ _ _ h => h

theorem Breaks.scans (h : Breaks text tokens) : Scans text tokens :=
  fun rest more _ hmore => h.splits rest more hmore

theorem Breaks.append (h : Breaks first tokens) (h' : Breaks second tokens') :
    Breaks (first ++ second) (tokens ++ tokens') := by
  constructor
  · intro rest
    rw [List.append_assoc]
    exact h.stops _
  · intro rest more hmore
    rw [List.append_assoc, List.append_assoc]
    exact h.splits _ _ (h'.splits rest more hmore)

theorem Breaks.append_scans (h : Breaks first tokens) (h' : Scans second tokens') :
    Scans (first ++ second) (tokens ++ tokens') := by
  intro rest more hstops hmore
  rw [List.append_assoc, List.append_assoc]
  exact h.splits _ _ (h' rest more hstops hmore)

theorem Breaks.enclose {last : List Char} {tokens'' : List Token} (h : Breaks first tokens)
    (h' : Scans second tokens') (h'' : Breaks last tokens'') :
    Breaks (first ++ second ++ last) (tokens ++ tokens' ++ tokens'') := by
  constructor
  · intro rest
    rw [List.append_assoc, List.append_assoc]
    exact h.stops _
  · intro rest more hmore
    simp only [List.append_assoc]
    exact h.splits _ _ (h' _ _ (h''.stops rest) (h''.splits rest more hmore))

theorem breaks_mark (h : punctuation? c = some token) : Breaks [c] [token] := by
  have hc : isBlank c = false ∧ isNumberChar c = false := by
    rw [punctuation?.eq_def] at h
    split at h
    all_goals first
      | decide
      | cases h
  constructor
  · rintro rest _ ⟨⟩
    exact hc.2
  · intro rest more hmore
    exact tokens?_cons hc.1 (by rw [token?, h]) (Nat.le_refl _) hmore

theorem breaks_blank (h : isBlank c = true) : Breaks [c] [] := by
  constructor
  · rintro rest _ ⟨⟩
    simp only [isBlank, Bool.or_eq_true, beq_iff_eq] at h
    rcases h with ((rfl | rfl) | rfl) | rfl <;> decide
  · intro rest more hmore
    exact (tokens?_blank h).trans hmore

theorem breaks_lineStart (level : Nat) : Breaks (lineStart level) [] := by
  have hblanks : ∀ count rest, tokens? (List.replicate count ' ' ++ rest) = tokens? rest := by
    intro count rest
    induction count with
    | zero => rfl
    | succ count ih => exact (tokens?_blank (by decide)).trans ih
  constructor
  · rintro rest _ ⟨⟩
    decide
  · intro rest more hmore
    exact (tokens?_blank (by decide)).trans ((hblanks _ rest).trans hmore)

theorem scans_word {word : List Char} (hb : isBlank c = false)
    (h : ∀ rest, token? c (word ++ rest) = some (token, rest)) : Scans (c :: word) [token] := by
  intro rest more _ hmore
  exact tokens?_cons hb (h rest) (by simp) hmore

theorem charsOf?_unit {value : Nat} (h : value < 0xd800) (more : List Piece) :
    charsOf? (.unit value :: more) = (charsOf? more).map (Char.ofNat value :: ·) := by
  have hhigh : ¬(0xd800 ≤ value ∧ value < 0xdc00) := by omega
  have hlow : ¬(0xdc00 ≤ value ∧ value < 0xe000) := by omega
  have halone : ¬(0xd800 ≤ value ∧ value < 0xe000) := by omega
  cases more with
  | nil => simp only [charsOf?, if_neg halone]
  | cons piece more =>
    cases piece with
    | char c => simp only [charsOf?, if_neg halone]
    | unit low => rw [charsOf?, if_neg hhigh, if_neg hlow]

theorem hex4?_hexDigit : ∀ n < 32,
    hex4? '0' '0' (hexDigit (n / 16)) (hexDigit (n % 16)) = some n := by decide

theorem pieces?_letter {letter : Char} (hu : letter ≠ 'u') (h : unescape? letter = some c)
    (rest : List Char) :
    pieces? ('\\' :: letter :: rest) =
      (pieces? rest).map fun read => (.char c :: read.1, read.2) := by
  rw [pieces?, h]
  · cases pieces? rest <;> rfl
  · exact fun _ _ _ _ _ he => absurd he hu

theorem pieces?_unit {a b x y : Char} {value : Nat} (h : hex4? a b x y = some value)
    (rest : List Char) :
    pieces? ('\\' :: 'u' :: a :: b :: x :: y :: rest) =
      (pieces? rest).map fun read => (.unit value :: read.1, read.2) := by
  rw [pieces?, h]
  cases pieces? rest <;> rfl

theorem pieces?_plain (hq : c ≠ '"') (hb : c ≠ '\\') (h : ¬c.toNat < 32) (rest : List Char) :
    pieces? (c :: rest) = (pieces? rest).map fun read => (.char c :: read.1, read.2) := by
  rw [pieces?, if_neg h]
  · cases pieces? rest <;> rfl
  · exact fun he => absurd he hq
  · exact fun _ _ _ _ _ he => absurd he hb
  · exact fun _ _ he => absurd he hb

/-- An escaped character is read as one piece, which stands for the character. -/
theorem exists_piece (c : Char) : ∃ piece,
    (∀ rest, pieces? (escape c ++ rest) =
      (pieces? rest).map fun read => (piece :: read.1, read.2)) ∧
    ∀ more, charsOf? (piece :: more) = (charsOf? more).map (c :: ·) := by
  have hchar : ∀ more, charsOf? (.char c :: more) = (charsOf? more).map (c :: ·) :=
    fun more => by rw [charsOf?]
  rw [escape]
  split
  · next h => exact ⟨_, pieces?_letter (by decide) (by rw [h]; rfl), hchar⟩
  next hq =>
  split
  · next h => exact ⟨_, pieces?_letter (by decide) (by rw [h]; rfl), hchar⟩
  next hb =>
  split
  · next h => exact ⟨_, pieces?_letter (by decide) (by rw [h]; rfl), hchar⟩
  split
  · next h => exact ⟨_, pieces?_letter (by decide) (by rw [h]; rfl), hchar⟩
  split
  · next h => exact ⟨_, pieces?_letter (by decide) (by rw [h]; rfl), hchar⟩
  split
  · next h => exact ⟨_, pieces?_letter (by decide) (by rw [h]; rfl), hchar⟩
  split
  · next h => exact ⟨_, pieces?_letter (by decide) (by rw [h]; rfl), hchar⟩
  split
  · next h =>
    refine ⟨_, pieces?_unit (hex4?_hexDigit c.toNat h), fun more => ?_⟩
    rw [charsOf?_unit (by omega), Char.ofNat_toNat]
  · next h => exact ⟨_, pieces?_plain hq hb h, hchar⟩

theorem exists_pieces (text : List Char) : ∃ pieces,
    (∀ rest, pieces? (text.flatMap escape ++ '"' :: rest) = some (pieces, rest)) ∧
      charsOf? pieces = some text := by
  induction text with
  | nil => exact ⟨[], fun rest => by rw [List.flatMap_nil, List.nil_append, pieces?], rfl⟩
  | cons c text ih =>
    obtain ⟨pieces, hread, hchars⟩ := ih
    obtain ⟨piece, hpiece, hchar⟩ := exists_piece c
    refine ⟨piece :: pieces, fun rest => ?_, by rw [hchar, hchars]; rfl⟩
    rw [List.flatMap_cons, List.append_assoc, hpiece, hread]
    rfl

theorem breaks_quote (text : String) : Breaks (quote text) [.string text] := by
  obtain ⟨pieces, hread, hchars⟩ := exists_pieces text.toList
  constructor
  · rintro rest _ ⟨⟩
    decide
  · intro rest more hmore
    have htext : quote text ++ rest = '"' :: (text.toList.flatMap escape ++ '"' :: rest) := by
      simp [quote]
    have htoken : token? '"' (text.toList.flatMap escape ++ '"' :: rest) =
        some (.string text, rest) := by
      rw [token?]
      simp [punctuation?, hread, hchars]
    rw [htext]
    exact tokens?_cons (by decide) htoken (by simp; omega) hmore

theorem token?_number (h : isNumberChar c = true) (rest : List Char) :
    token? c rest = (numberToken? (c :: rest.takeWhile isNumberChar)).map
      fun token => (token, rest.dropWhile isNumberChar) := by
  have hmark : punctuation? c = none := by
    rw [punctuation?.eq_def]
    split
    all_goals first
      | rfl
      | exact absurd h (by decide)
  have hquote : c ≠ '"' := by
    rintro rfl
    exact absurd h (by decide)
  rw [token?, hmark, if_neg hquote, if_pos h]
  cases numberToken? (c :: rest.takeWhile isNumberChar) <;> rfl

theorem scans_number (hall : ∀ c ∈ text, isNumberChar c = true)
    (h : numberToken? text = some token) : Scans text [token] := by
  intro rest more hstops hmore
  cases text with
  | nil => cases h
  | cons c digits =>
    obtain ⟨hc, hdigits⟩ := List.forall_mem_cons.1 hall
    have hrest : rest.takeWhile isNumberChar = [] ∧ rest.dropWhile isNumberChar = rest := by
      cases rest with
      | nil => exact ⟨rfl, rfl⟩
      | cons d rest => simp [hstops d rfl]
    have hblank : isBlank c = false := by
      rw [Bool.eq_false_iff]
      intro hb
      simp only [isBlank, Bool.or_eq_true, beq_iff_eq] at hb
      rcases hb with ((rfl | rfl) | rfl) | rfl <;> exact absurd hc (by decide)
    have htoken : token? c (digits ++ rest) = some (token, rest) := by
      rw [token?_number hc, List.takeWhile_append_of_pos hdigits, hrest.1,
        List.dropWhile_append_of_pos hdigits, hrest.2, List.append_nil, h]
      rfl
    exact tokens?_cons hblank htoken (by simp) hmore

theorem head?_toDigits (n : Nat) (h : 0 < n) : (Nat.toDigits 10 n).head? ≠ some '0' := by
  induction n using Nat.strongRecOn with
  | ind n ih =>
    rw [Nat.toDigits_eq_if (by decide)]
    split
    · next hlt =>
      have hdigit : ∀ n < 10, 0 < n → [n.digitChar].head? ≠ some '0' := by decide
      exact hdigit n hlt h
    · next hge =>
      have hpos : 0 < n / 10 := Nat.div_pos (Nat.le_of_not_lt hge) (by decide)
      rw [List.head?_append]
      have hrec := ih (n / 10) (Nat.div_lt_self h (by decide)) hpos
      cases hd : (Nat.toDigits 10 (n / 10)).head? with
      | none => exact absurd (List.head?_eq_none_iff.1 hd) Nat.toDigits_ne_nil
      | some d => rwa [hd] at hrec

theorem isInteger_toDigits (n : Nat) : isInteger (Nat.toDigits 10 n) = true := by
  have hne : (Nat.toDigits 10 n).isEmpty = false := by
    rw [List.isEmpty_eq_false_iff]
    exact Nat.toDigits_ne_nil
  have hall : (Nat.toDigits 10 n).all Char.isDigit = true :=
    List.all_eq_true.2 fun c hc => Nat.isDigit_of_mem_toDigits (by decide) (by decide) hc
  have hzero : ((Nat.toDigits 10 n).head? != some '0' || Nat.toDigits 10 n == ['0']) = true := by
    rcases Nat.eq_zero_or_pos n with rfl | hpos
    · decide
    · simp [head?_toDigits n hpos]
  rw [isInteger, isDigits, hne, hall, hzero]
  rfl

theorem scans_nat (n : Nat) : Scans (Nat.toDigits 10 n) [.nat n] := by
  apply scans_number
  · intro c hc
    rw [isNumberChar, Nat.isDigit_of_mem_toDigits (by decide) (by decide) hc]
    rfl
  · unfold numberToken?
    rw [if_pos (isInteger_toDigits n), Nat.ofDigitChars_ten_toDigits]

def joinedTokens : List (List Token) → List Token
  | [] => []
  | [tokens] => tokens
  | tokens :: rest => tokens ++ .comma :: joinedTokens rest

theorem scans_joined {separator : List Char} (h : Breaks separator [.comma])
    {texts : List (List Char)} {lists : List (List Token)} (hall : List.Forall₂ Scans texts lists) :
    Scans (joined separator texts) (joinedTokens lists) := by
  induction hall with
  | nil => exact scans_nil
  | cons hitem hrest ih =>
    cases hrest with
    | nil => exact hitem
    | cons _ _ =>
      intro rest more hstops hmore
      rw [joined, joinedTokens, List.append_assoc, List.append_assoc, List.append_assoc]
      · exact hitem _ _ (h.stops _) (h.splits _ _ (ih rest more hstops hmore))
      all_goals exact List.cons_ne_nil _ _

end CodeTree.Json
