/-!
# Byte offsets in text

Offsets into a source count the bytes of its UTF-8 form. An offset is a boundary when it lies
between two characters, or at an end. `take` and `drop` cut a text at any offset: a character goes
to the side on which its first byte lies, so nothing is lost (`take_append_drop`), and at a boundary
the left part has exactly the bytes asked for (`size_take`).
-/

namespace CodeTree.Utf8

def size : List Char → Nat
  | [] => 0
  | c :: rest => c.utf8Size + size rest

/-- The characters that start before byte `n`. -/
def take : Nat → List Char → List Char
  | 0, _ => []
  | _ + 1, [] => []
  | n + 1, c :: rest => c :: take (n + 1 - c.utf8Size) rest

/-- The characters that start at byte `n` or later. -/
def drop : Nat → List Char → List Char
  | 0, text => text
  | _ + 1, [] => []
  | n + 1, c :: rest => drop (n + 1 - c.utf8Size) rest

def isBoundary : Nat → List Char → Bool
  | 0, _ => true
  | _ + 1, [] => false
  | n + 1, c :: rest => c.utf8Size ≤ n + 1 && isBoundary (n + 1 - c.utf8Size) rest

/-- The characters that start in the bytes from `start` up to `stop`. -/
def slice (start stop : Nat) (text : List Char) : List Char := drop start (take stop text)

/-- Whether the bytes from `start` up to `stop` are a run of whole characters. -/
def isRange (start stop : Nat) (text : List Char) : Bool :=
  start ≤ stop && isBoundary start text && isBoundary stop text

@[simp] theorem size_nil : size [] = 0 := rfl

@[simp] theorem size_cons (c : Char) (rest : List Char) :
    size (c :: rest) = c.utf8Size + size rest := rfl

@[simp] theorem size_append (a b : List Char) : size (a ++ b) = size a + size b := by
  induction a with
  | nil => simp
  | cons c rest ih => simp [ih, Nat.add_assoc]

theorem take_append_drop (n : Nat) (text : List Char) : take n text ++ drop n text = text := by
  fun_induction take n text with
  | case1 => simp [drop]
  | case2 => simp [drop]
  | case3 n c rest ih => simp [drop, ih]

theorem size_take {n : Nat} {text : List Char} (h : isBoundary n text = true) :
    size (take n text) = n := by
  fun_induction take n text with
  | case1 => rfl
  | case2 => simp [isBoundary] at h
  | case3 n c rest ih =>
    simp only [isBoundary, Bool.and_eq_true, decide_eq_true_eq] at h
    have := ih h.2
    simp only [size_cons, this]
    omega

theorem isBoundary_size_append (a b : List Char) : isBoundary (size a) (a ++ b) = true := by
  induction a with
  | nil => simp [isBoundary]
  | cons c rest ih =>
    obtain ⟨n, hn⟩ : ∃ n, size (c :: rest) = n + 1 :=
      ⟨size (c :: rest) - 1, by have := c.utf8Size_pos; simp only [size_cons]; omega⟩
    have hrest : n + 1 - c.utf8Size = size rest := by simp only [size_cons] at hn; omega
    have hle : c.utf8Size ≤ n + 1 := by simp only [size_cons] at hn; omega
    rw [hn, List.cons_append, isBoundary, hrest, ih]
    simpa using hle

theorem isBoundary_iff {n : Nat} {text : List Char} :
    isBoundary n text = true ↔ ∃ a b, text = a ++ b ∧ size a = n := by
  constructor
  · intro h
    exact ⟨take n text, drop n text, (take_append_drop n text).symm, size_take h⟩
  · rintro ⟨a, b, rfl, rfl⟩
    exact isBoundary_size_append a b

theorem size_eq_utf8ByteSize (text : List Char) :
    size text = (String.ofList text).utf8ByteSize := by
  induction text with
  | nil => rfl
  | cons c rest ih =>
    have h : String.ofList (c :: rest) = String.singleton c ++ String.ofList rest := by
      rw [String.singleton_eq_ofList, ← String.ofList_append, List.singleton_append]
    rw [h, String.utf8ByteSize_append, String.utf8ByteSize_singleton, size_cons, ih]

@[simp] theorem size_toList (s : String) : size s.toList = s.utf8ByteSize := by
  rw [size_eq_utf8ByteSize, String.ofList_toList]

end CodeTree.Utf8
