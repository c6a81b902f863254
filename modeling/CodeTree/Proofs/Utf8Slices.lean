import CodeTree.Text.Utf8

/-!
# Slices between boundaries

At boundaries, cutting a text by byte offsets is cutting it into runs of characters: a range splits
the text into what stands before it, the slice, and what comes after. From this it follows that
neighbouring slices join, and how many bytes a slice has.
-/

namespace CodeTree.Utf8

theorem isRange_iff {start stop : Nat} {text : List Char} :
    isRange start stop text = true ↔
      start ≤ stop ∧ isBoundary start text = true ∧ isBoundary stop text = true := by
  simp [isRange, and_assoc]

theorem isRange_self {offset : Nat} {text : List Char} (h : isBoundary offset text = true) :
    isRange offset offset text = true := isRange_iff.2 ⟨Nat.le_refl _, h, h⟩

theorem isRange_trans {start middle stop : Nat} {text : List Char}
    (h : isRange start middle text = true) (h' : isRange middle stop text = true) :
    isRange start stop text = true := by
  obtain ⟨hle, hstart, -⟩ := isRange_iff.1 h
  obtain ⟨hle', -, hstop⟩ := isRange_iff.1 h'
  exact isRange_iff.2 ⟨Nat.le_trans hle hle', hstart, hstop⟩

theorem size_pos_of_cons (c : Char) (rest : List Char) : 0 < size (c :: rest) := by
  have := c.utf8Size_pos
  simp only [size_cons]
  omega

theorem eq_nil_of_size_eq_zero {text : List Char} (h : size text = 0) : text = [] := by
  cases text with
  | nil => rfl
  | cons c rest =>
      have := size_pos_of_cons c rest
      omega

theorem take_size_append (a b : List Char) : take (size a) (a ++ b) = a := by
  induction a with
  | nil => simp [take]
  | cons c rest ih =>
      obtain ⟨n, hn⟩ : ∃ n, size (c :: rest) = n + 1 :=
        ⟨size (c :: rest) - 1, by have := size_pos_of_cons c rest; omega⟩
      have hrest : n + 1 - c.utf8Size = size rest := by
        simp only [size_cons] at hn
        omega
      rw [hn, List.cons_append, take, hrest, ih]

theorem drop_size_append (a b : List Char) : drop (size a) (a ++ b) = b := by
  have h := take_append_drop (size a) (a ++ b)
  rw [take_size_append] at h
  exact List.append_cancel_left h

theorem take_size (text : List Char) : take (size text) text = text := by
  simpa using take_size_append text []

theorem take_zero (text : List Char) : take 0 text = [] := by
  simp [take]

theorem isBoundary_zero (text : List Char) : isBoundary 0 text = true := by
  simp [isBoundary]

theorem isBoundary_size (text : List Char) : isBoundary (size text) text = true := by
  simpa using isBoundary_size_append text []

theorem le_size_of_isBoundary {n : Nat} {text : List Char} (h : isBoundary n text = true) :
    n ≤ size text := by
  obtain ⟨a, b, rfl, rfl⟩ := isBoundary_iff.1 h
  simp

theorem isBoundary_append {n : Nat} {text : List Char} (h : isBoundary n text = true)
    (more : List Char) : isBoundary n (text ++ more) = true := by
  obtain ⟨a, b, rfl, rfl⟩ := isBoundary_iff.1 h
  exact isBoundary_iff.2 ⟨a, b ++ more, List.append_assoc a b more, rfl⟩

theorem isRange_append {start stop : Nat} {text : List Char} (h : isRange start stop text = true)
    (more : List Char) : isRange start stop (text ++ more) = true := by
  obtain ⟨hle, hstart, hstop⟩ := isRange_iff.1 h
  exact isRange_iff.2 ⟨hle, isBoundary_append hstart more, isBoundary_append hstop more⟩

theorem isBoundary_toList_iff {offset : Nat} {text : String} :
    isBoundary offset text.toList = true ↔ String.Pos.Raw.IsValid text ⟨offset⟩ := by
  rw [isBoundary_iff, String.Pos.Raw.isValid_iff_exists_append]
  constructor
  · rintro ⟨a, b, htext, rfl⟩
    refine ⟨String.ofList a, String.ofList b, ?_, ?_⟩
    · rw [← String.ofList_append, ← htext, String.ofList_toList]
    · rw [size_eq_utf8ByteSize]
      rfl
  · rintro ⟨a, b, rfl, hoffset⟩
    refine ⟨a.toList, b.toList, String.toList_append, ?_⟩
    rw [size_toList]
    exact (congrArg String.Pos.Raw.byteIdx hoffset).symm

/-- Two boundaries cut a text into three. -/
theorem exists_split {start stop : Nat} {text : List Char}
    (h : isRange start stop text = true) :
    ∃ a m b, text = a ++ (m ++ b) ∧ size a = start ∧ size a + size m = stop := by
  obtain ⟨hle, hstart, hstop⟩ := isRange_iff.1 h
  obtain ⟨a, b, hab, ha⟩ := isBoundary_iff.1 hstart
  obtain ⟨c, d, hcd, hc⟩ := isBoundary_iff.1 hstop
  obtain ⟨m, rfl⟩ | ⟨m, rfl, -⟩ : (∃ m, c = a ++ m) ∨ ∃ m, a = c ++ m ∧ m ≠ [] := by
    rcases List.append_eq_append_iff.1 (hab.symm.trans hcd) with ⟨m, hm, -⟩ | ⟨m, hm, -⟩
    · exact .inl ⟨m, hm⟩
    · cases m with
      | nil => exact .inl ⟨[], by simpa using hm.symm⟩
      | cons x rest => exact .inr ⟨x :: rest, hm, by simp⟩
  · refine ⟨a, m, d, ?_, ha, ?_⟩
    · rw [hcd, List.append_assoc]
    · rw [← size_append, hc]
  · -- The second offset is not before the first, so the piece between them is empty.
    have hm : size m = 0 := by
      rw [size_append] at ha
      omega
    refine ⟨c ++ m, [], b, by simpa using hab, ha, ?_⟩
    rw [size_append] at ha ⊢
    simp only [size_nil]
    omega

theorem slice_of_split {start stop : Nat} {a m b : List Char} (ha : size a = start)
    (hm : size a + size m = stop) : slice start stop (a ++ (m ++ b)) = m := by
  subst ha hm
  rw [slice, ← List.append_assoc, ← size_append, take_size_append, drop_size_append]

theorem take_append_slice {start stop : Nat} {text : List Char}
    (h : isRange start stop text = true) :
    take start text ++ slice start stop text = take stop text := by
  obtain ⟨a, m, b, rfl, ha, hm⟩ := exists_split h
  rw [slice_of_split ha hm, ← ha, take_size_append, ← hm, ← size_append, ← List.append_assoc,
    take_size_append]

theorem size_slice {start stop : Nat} {text : List Char}
    (h : isRange start stop text = true) : size (slice start stop text) = stop - start := by
  obtain ⟨a, m, b, rfl, ha, hm⟩ := exists_split h
  rw [slice_of_split ha hm]
  omega

theorem slice_append_slice {start middle stop : Nat} {text : List Char}
    (h : isRange start middle text = true) (h' : isRange middle stop text = true) :
    slice start middle text ++ slice middle stop text = slice start stop text := by
  have hjoin := take_append_slice (isRange_trans h h')
  rw [← take_append_slice h', ← take_append_slice h, List.append_assoc] at hjoin
  exact (List.append_cancel_left hjoin).symm

theorem slice_self {offset : Nat} {text : List Char} (h : isBoundary offset text = true) :
    slice offset offset text = [] := by
  have hs : size (slice offset offset text) = 0 := by
    rw [size_slice (isRange_self h)]
    omega
  exact eq_nil_of_size_eq_zero hs

theorem slice_prefix_drop_take {start stop bound : Nat} {text : List Char}
    (h : isRange start stop text = true) (h' : isRange stop bound text = true) :
    (slice start stop text).isPrefixOf (drop start (take bound text)) = true := by
  change (slice start stop text).isPrefixOf (slice start bound text) = true
  rw [← slice_append_slice h h', List.isPrefixOf_iff_prefix]
  exact List.prefix_append _ _

end CodeTree.Utf8
