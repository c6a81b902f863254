import CodeTree.Proofs.ByteOrder
import CodeTree.Proofs.ValidNodes
import Mathlib.Algebra.Group.Nat.Defs
import Mathlib.Data.List.DropRight

/-!
# Lines and columns of offsets

The line of an offset counts the newlines before it, and its column the bytes since the last of
them. The table of line starts holds the offset 0 and those right behind a newline, in increasing
order, so the search in it finds how many lines have started (`countUpTo_eq_countP`), and the start
that is read there is the last one that is not behind the offset. No newline stands between that
start and the offset, which makes the column exact. Lines and columns are stored in 32 bits; they
fit as long as the source is shorter than 2 ^ 32 - 1 bytes.
-/

namespace CodeTree

def newline : UInt8 := 10

/-- Whether a line and a column are those of an offset: the line is one more than the number of
newlines before the offset, the column one more than the number of bytes since the last newline. -/
structure LineColumn.Locates (position : LineColumn) (bytes : List UInt8) (offset : Nat) :
    Prop where
  line : position.line.toNat = 1 + (bytes.take offset).count newline
  column : position.column.toNat =
    1 + ((bytes.take offset).rtakeWhile fun byte => byte ≠ newline).length

/-- Whether a position does not come after another; lines decide, and then columns. -/
def LineColumn.NotAfter (first second : LineColumn) : Prop :=
  first.line < second.line ∨ first.line = second.line ∧ first.column ≤ second.column

/-- The offsets behind the newlines of bytes of which the first has the given offset. -/
def breaks (offset : Nat) : List UInt8 → List Nat
  | [] => []
  | byte :: rest =>
    if byte = newline then (offset + 1) :: breaks (offset + 1) rest else breaks (offset + 1) rest

theorem breaks_append_of_not_mem {first : List UInt8} (h : newline ∉ first) (offset : Nat)
    (second : List UInt8) :
    breaks offset (first ++ second) = breaks (offset + first.length) second := by
  induction first generalizing offset with
  | nil => rfl
  | cons byte rest ih =>
    rw [List.mem_cons, not_or] at h
    rw [List.cons_append, breaks, if_neg (Ne.symm h.1), ih h.2, List.length_cons]
    congr 1
    omega

theorem newline_ne_ofNat {value : Nat} (hlt : value < 256) (hne : value ≠ 10) :
    newline ≠ UInt8.ofNat value := by
  intro heq
  have hnat := congrArg UInt8.toNat heq
  rw [UInt8.toNat_ofNat', Nat.mod_eq_of_lt hlt] at hnat
  exact hne hnat.symm

/-- Only the newline itself has the byte of a newline in its encoding. -/
theorem newline_not_mem_utf8EncodeChar {c : Char} (h : c ≠ '\n') :
    newline ∉ String.utf8EncodeChar c := by
  have hvalue : c.val.toNat ≠ 10 := fun heq => h (Char.ext (UInt32.toNat_inj.1 heq))
  simp only [String.utf8EncodeChar]
  generalize c.val.toNat = value at hvalue
  intro hm
  split at hm
  · exact newline_ne_ofNat (by omega) hvalue (List.mem_singleton.1 hm)
  -- The bytes of a longer encoding are all at least 128.
  · split at hm
    · rcases List.mem_pair.1 hm with heq | heq
      · exact newline_ne_ofNat (by omega) (by omega) heq
      · exact newline_ne_ofNat (by omega) (by omega) heq
    · split at hm
      · simp only [List.mem_cons, List.not_mem_nil, or_false] at hm
        rcases hm with heq | heq | heq <;> exact newline_ne_ofNat (by omega) (by omega) heq
      · simp only [List.mem_cons, List.not_mem_nil, or_false] at hm
        rcases hm with heq | heq | heq | heq <;> exact newline_ne_ofNat (by omega) (by omega) heq

theorem newlineEnds_eq_breaks (offset : Nat) (text : List Char) :
    newlineEnds offset text = breaks offset (text.flatMap String.utf8EncodeChar) := by
  induction text generalizing offset with
  | nil => rfl
  | cons c rest ih =>
    rw [newlineEnds, List.flatMap_cons]
    by_cases hc : c = '\n'
    · subst hc
      have hencoded : String.utf8EncodeChar '\n' = [newline] := rfl
      rw [if_pos rfl, hencoded, List.singleton_append, breaks, if_pos rfl, ih]
    · rw [if_neg hc, breaks_append_of_not_mem (newline_not_mem_utf8EncodeChar hc),
        String.length_utf8EncodeChar, ih]

theorem mem_breaks {offset start : Nat} {bytes : List UInt8} :
    start ∈ breaks offset bytes ↔
      ∃ i, bytes[i]? = some newline ∧ start = offset + i + 1 := by
  induction bytes generalizing offset with
  | nil => simp [breaks]
  | cons byte rest ih =>
    have hlater : (∃ i, (byte :: rest)[i + 1]? = some newline ∧ start = offset + (i + 1) + 1) ↔
        start ∈ breaks (offset + 1) rest := by
      rw [ih]
      simp only [List.getElem?_cons_succ]
      exact exists_congr fun i => and_congr_right fun _ => by omega
    have hsplit : (∃ i, (byte :: rest)[i]? = some newline ∧ start = offset + i + 1) ↔
        (byte = newline ∧ start = offset + 1) ∨ start ∈ breaks (offset + 1) rest := by
      rw [← hlater]
      constructor
      · rintro ⟨i, hi, hstart⟩
        cases i with
        | zero => exact .inl ⟨Option.some.inj hi, hstart⟩
        | succ i => exact .inr ⟨i, hi, hstart⟩
      · rintro (⟨rfl, hstart⟩ | ⟨i, hi, hstart⟩)
        · exact ⟨0, rfl, hstart⟩
        · exact ⟨i + 1, hi, hstart⟩
    rw [hsplit, breaks]
    by_cases hb : byte = newline
    · rw [if_pos hb, List.mem_cons]
      simp [hb]
    · rw [if_neg hb]
      simp [hb]

theorem lt_of_mem_breaks {offset start : Nat} {bytes : List UInt8}
    (h : start ∈ breaks offset bytes) : offset < start := by
  obtain ⟨i, -, rfl⟩ := mem_breaks.1 h
  omega

theorem pairwise_breaks (offset : Nat) (bytes : List UInt8) :
    (breaks offset bytes).Pairwise (· < ·) := by
  induction bytes generalizing offset with
  | nil => exact .nil
  | cons byte rest ih =>
    rw [breaks]
    split
    · exact .cons (fun start hm => lt_of_mem_breaks hm) (ih _)
    · exact ih _

/-- As many lines start behind the first byte and not behind an offset as there are newlines before
the offset. -/
theorem countP_breaks (offset count : Nat) (bytes : List UInt8) :
    (breaks offset bytes).countP (fun start => start ≤ offset + count) =
      (bytes.take count).count newline := by
  induction bytes generalizing offset count with
  | nil => rw [breaks, List.take_nil, List.countP_nil, List.count_nil]
  | cons byte rest ih =>
    cases count with
    | zero =>
      rw [List.take_zero, List.count_nil, List.countP_eq_zero]
      intro start hm
      have hlt := lt_of_mem_breaks hm
      simp only [decide_eq_true_eq]
      omega
    | succ count =>
      have hrest := ih (offset + 1) count
      rw [Nat.add_assoc, Nat.add_comm 1 count] at hrest
      rw [List.take_succ_cons, List.count_cons, breaks, ← hrest]
      by_cases hb : byte = newline
      · rw [if_pos hb, List.countP_cons_of_pos (by simp)]
        simp [hb]
      · rw [if_neg hb]
        simp [hb]

theorem le_of_getElem?_of_le {table : Array Nat} (hsorted : table.toList.Pairwise (· < ·))
    {i j first second : Nat} (hi : table[i]? = some first) (hj : table[j]? = some second)
    (hle : i ≤ j) : first ≤ second := by
  obtain ⟨hfirst, rfl⟩ := Array.getElem?_eq_some_iff.1 hi
  obtain ⟨hsecond, rfl⟩ := Array.getElem?_eq_some_iff.1 hj
  rcases Nat.lt_or_eq_of_le hle with hlt | rfl
  · exact Nat.le_of_lt (List.pairwise_iff_getElem.1 hsorted i j hfirst hsecond hlt)
  · exact Nat.le_refl _

/-- In an increasing table, the search finds the position before which no entry is behind an offset
and from which on all are. -/
theorem countUpTo_bounds {table : Array Nat} (hsorted : table.toList.Pairwise (· < ·))
    (offset : Nat) {low high : Nat} (hle : low ≤ high) (hhigh : high ≤ table.size)
    (hbefore : ∀ i < low, ∀ start, table[i]? = some start → start ≤ offset)
    (hbehind : ∀ i ≥ high, ∀ start, table[i]? = some start → offset < start) :
    countUpTo table offset low high ≤ table.size ∧
      (∀ i < countUpTo table offset low high, ∀ start, table[i]? = some start →
        start ≤ offset) ∧
      ∀ i ≥ countUpTo table offset low high, ∀ start, table[i]? = some start →
        offset < start := by
  fun_induction countUpTo table offset low high with
  | case1 low high hlt middle hmiddle ih =>
    have hin : middle < table.size := by omega
    have hread : table[middle]? = some table[middle] := Array.getElem?_eq_getElem hin
    rw [Array.getD_eq_getD_getElem?, hread, Option.getD_some] at hmiddle
    refine ih (by omega) hhigh (fun i hi start hstart => ?_) hbehind
    have hentry := le_of_getElem?_of_le hsorted hstart hread (by omega)
    exact Nat.le_trans hentry hmiddle
  | case2 low high hlt middle hmiddle ih =>
    have hin : middle < table.size := by omega
    have hread : table[middle]? = some table[middle] := Array.getElem?_eq_getElem hin
    rw [Array.getD_eq_getD_getElem?, hread, Option.getD_some] at hmiddle
    refine ih (by omega) (by omega) hbefore fun i hi start hstart => ?_
    have hentry := le_of_getElem?_of_le hsorted hread hstart hi
    omega
  | case3 low high hlt =>
    obtain rfl : low = high := by omega
    exact ⟨hhigh, hbefore, hbehind⟩

theorem countUpTo_table {table : Array Nat} (hsorted : table.toList.Pairwise (· < ·))
    (offset : Nat) :
    countUpTo table offset 0 table.size ≤ table.size ∧
      (∀ i < countUpTo table offset 0 table.size, ∀ start, table[i]? = some start →
        start ≤ offset) ∧
      ∀ i ≥ countUpTo table offset 0 table.size, ∀ start, table[i]? = some start →
        offset < start := by
  refine countUpTo_bounds hsorted offset (Nat.zero_le _) (Nat.le_refl _) (by simp) ?_
  intro i hi start hstart
  rw [Array.getElem?_eq_none hi] at hstart
  cases hstart

theorem countUpTo_eq_countP {table : Array Nat} (hsorted : table.toList.Pairwise (· < ·))
    (offset : Nat) :
    countUpTo table offset 0 table.size =
      table.toList.countP fun start => start ≤ offset := by
  obtain ⟨hsize, hbefore, hbehind⟩ := countUpTo_table hsorted offset
  generalize countUpTo table offset 0 table.size = count at *
  have hfirst : (table.toList.take count).countP (fun start => start ≤ offset) = count := by
    have hall : ∀ start ∈ table.toList.take count, decide (start ≤ offset) = true := by
      intro start hm
      obtain ⟨i, hi, rfl⟩ := List.getElem_of_mem hm
      rw [List.length_take, Nat.lt_min] at hi
      rw [List.getElem_take]
      exact decide_eq_true (hbefore i hi.1 _ (Array.getElem?_eq_getElem hi.2))
    rw [List.countP_eq_length.2 hall, List.length_take]
    exact Nat.min_eq_left hsize
  have hsecond : (table.toList.drop count).countP (fun start => start ≤ offset) = 0 := by
    rw [List.countP_eq_zero]
    intro start hm
    obtain ⟨i, hi, rfl⟩ := List.getElem_of_mem hm
    rw [List.length_drop] at hi
    have hin : count + i < table.size := by
      rw [← Array.length_toList]
      omega
    have hlt := hbehind (count + i) (Nat.le_add_right _ _) _ (Array.getElem?_eq_getElem hin)
    rw [List.getElem_drop]
    simp only [decide_eq_true_eq, Array.getElem_toList]
    omega
  rw [← List.take_append_drop count table.toList, List.countP_append, hfirst, hsecond,
    Nat.add_zero]

/-- What follows the last newline of a list of bytes, where a line starts and no newline comes
after. -/
theorem rtakeWhile_eq_drop {bytes : List UInt8} {start : Nat} (hnone : newline ∉ bytes.drop start)
    (hstart : start = 0 ∨ ∃ i, start = i + 1 ∧ bytes[i]? = some newline) :
    (bytes.rtakeWhile fun byte => byte ≠ newline) = bytes.drop start := by
  have hafter : ∀ byte ∈ (bytes.drop start).reverse, decide (byte ≠ newline) = true := by
    intro byte hm
    rw [decide_eq_true_eq]
    rintro rfl
    exact hnone (List.mem_reverse.1 hm)
  have hbefore :
      ((bytes.take start).reverse.takeWhile fun byte => decide (byte ≠ newline)) = [] := by
    rcases hstart with rfl | ⟨i, rfl, hi⟩
    · rfl
    · obtain ⟨hlt, hget⟩ := List.getElem?_eq_some_iff.1 hi
      rw [← List.take_append_getElem hlt, hget, List.reverse_append, List.reverse_singleton,
        List.singleton_append, List.takeWhile_cons_of_neg (by simp)]
  conv => lhs; rw [← List.take_append_drop start bytes]
  rw [List.rtakeWhile, List.reverse_append, List.takeWhile_append_of_pos hafter, hbefore,
    List.append_nil, List.reverse_reverse]

namespace Tree

variable {tree : Tree}

def bytes (tree : Tree) : List UInt8 := tree.source.toUTF8.data.toList

theorem length_bytes (tree : Tree) : tree.bytes.length = tree.sourceSize := rfl

theorem lineStarts_eq_breaks (tree : Tree) : tree.lineStarts.toList = 0 :: breaks 0 tree.bytes := by
  have hbytes : tree.bytes = tree.source.toList.flatMap String.utf8EncodeChar :=
    Path.bytes_eq tree.source
  rw [tree.lineStarts_eq, lineTable, newlineEnds_eq_breaks, ← hbytes]

theorem pairwise_lineStarts (tree : Tree) : tree.lineStarts.toList.Pairwise (· < ·) := by
  rw [lineStarts_eq_breaks]
  exact .cons (fun start hm => lt_of_mem_breaks hm) (pairwise_breaks 0 tree.bytes)

/-- What is read from the line table for an offset. The search finds at least one line, and the
line's start is an entry of the table that is not behind the offset, so neither subtraction
underflows. -/
theorem exists_lineStart (tree : Tree) (offset : Nat) :
    ∃ line start, countUpTo tree.lineStarts offset 0 tree.lineStarts.size = line + 1 ∧
      tree.lineStarts[line]? = some start ∧ start ≤ offset ∧
      line = (tree.bytes.take offset).count newline ∧
      ((tree.bytes.take offset).rtakeWhile fun byte => byte ≠ newline) =
        (tree.bytes.take offset).drop start := by
  obtain ⟨hsize, hbefore, hbehind⟩ := countUpTo_table tree.pairwise_lineStarts offset
  have hcount := countUpTo_eq_countP tree.pairwise_lineStarts offset
  have hbreaks := countP_breaks 0 offset tree.bytes
  rw [Nat.zero_add] at hbreaks
  rw [lineStarts_eq_breaks, List.countP_cons_of_pos (by simp), hbreaks] at hcount
  rw [hcount] at hsize hbefore hbehind
  have hread := Array.getElem?_eq_getElem hsize
  have hle := hbefore _ (Nat.lt_succ_self _) _ hread
  refine ⟨_, _, hcount, hread, hle, rfl, ?_⟩
  have hentries : ∀ entry, entry ∈ tree.lineStarts ↔
      entry = 0 ∨ ∃ i, tree.bytes[i]? = some newline ∧ entry = i + 1 := by
    intro entry
    rw [← Array.mem_toList_iff, lineStarts_eq_breaks, List.mem_cons, mem_breaks]
    simp only [Nat.zero_add]
  apply rtakeWhile_eq_drop
  · -- A newline after the start would start a later line that is not behind the offset either.
    intro hm
    obtain ⟨i, hi⟩ := List.mem_iff_getElem?.1 hm
    rw [List.getElem?_drop, List.getElem?_take] at hi
    split at hi
    · next hlt =>
      obtain ⟨k, hk⟩ := Array.mem_iff_getElem?.1 ((hentries _).2 (.inr ⟨_, hi, rfl⟩))
      have hearlier : k ≤ (tree.bytes.take offset).count newline := by
        by_contra hgt
        have hbehind' := hbehind k (Nat.lt_of_not_le hgt) _ hk
        omega
      have hstart := le_of_getElem?_of_le tree.pairwise_lineStarts hk hread hearlier
      omega
    · cases hi
  · rcases (hentries _).1 (Array.mem_of_getElem? hread) with hzero | ⟨i, hi, hstart⟩
    · exact .inl hzero
    · refine .inr ⟨i, hstart, ?_⟩
      rw [List.getElem?_take, if_pos (by omega), hi]

theorem toNat_succ_toUInt32 {value : Nat} (h : value < 2 ^ 32 - 1) :
    (value.toUInt32 + 1).toNat = 1 + value := by
  rw [UInt32.toNat_add, UInt32.toNat_ofNat_of_lt' (by simp [UInt32.size]; omega)]
  simp only [UInt32.toNat_one]
  omega

theorem locates_lineColumn (hsize : tree.sourceSize < 2 ^ 32 - 1) {offset : Nat}
    (h : offset ≤ tree.sourceSize) : (tree.lineColumn offset).Locates tree.bytes offset := by
  obtain ⟨line, start, hcount, hread, hle, hline, hsince⟩ := tree.exists_lineStart offset
  have hlength : (tree.bytes.take offset).length = offset := by
    rw [List.length_take, length_bytes]
    exact Nat.min_eq_left h
  have hbound : line ≤ offset := by
    calc line = (tree.bytes.take offset).count newline := hline
      _ ≤ (tree.bytes.take offset).length := List.count_le_length
      _ = offset := hlength
  have hlookup : tree.lineColumn offset = ⟨line.toUInt32 + 1, (offset - start).toUInt32 + 1⟩ := by
    rw [lineColumn, CodeTree.lineColumn, hcount, Nat.add_sub_cancel,
      Array.getD_eq_getD_getElem?, hread, Option.getD_some]
  rw [hlookup]
  constructor
  · rw [← hline]
    exact toNat_succ_toUInt32 (by omega)
  · rw [hsince, List.length_drop, hlength]
    exact toNat_succ_toUInt32 (by omega)

/-- Between two offsets there is a newline, and the line of the second is greater, or there is none,
and the column grows by the bytes between them. -/
theorem locates_cases {first second : LineColumn} {bytes : List UInt8} {a b : Nat}
    (ha : first.Locates bytes a) (hb : second.Locates bytes b) (hle : a ≤ b) :
    first.line < second.line ∨ first.line = second.line ∧
      second.column.toNat = first.column.toNat + ((bytes.drop a).take (b - a)).length := by
  have hsplit : bytes.take b = bytes.take a ++ (bytes.drop a).take (b - a) := by
    rw [← List.take_add, Nat.add_sub_cancel' hle]
  have hline := hb.line
  have hcolumn := hb.column
  rw [hsplit, List.count_append] at hline
  rw [hsplit] at hcolumn
  by_cases hm : newline ∈ (bytes.drop a).take (b - a)
  · have hpos := List.count_pos_iff.2 hm
    have hfirst := ha.line
    left
    rw [UInt32.lt_iff_toNat_lt]
    omega
  · right
    rw [List.count_eq_zero.2 hm, Nat.add_zero, ← ha.line] at hline
    refine ⟨UInt32.toNat_inj.1 hline.symm, ?_⟩
    have hmiddle : ∀ byte ∈ ((bytes.drop a).take (b - a)).reverse,
        decide (byte ≠ newline) = true := by
      intro byte hbyte
      rw [decide_eq_true_eq]
      rintro rfl
      exact hm (List.mem_reverse.1 hbyte)
    rw [List.rtakeWhile, List.reverse_append, List.takeWhile_append_of_pos hmiddle,
      List.length_reverse, List.length_append, List.length_reverse] at hcolumn
    rw [ha.column, List.rtakeWhile, List.length_reverse]
    omega

theorem notAfter_of_locates {first second : LineColumn} {bytes : List UInt8} {a b : Nat}
    (ha : first.Locates bytes a) (hb : second.Locates bytes b) (hle : a ≤ b) :
    first.NotAfter second := by
  rcases locates_cases ha hb hle with hlt | ⟨hline, hcolumn⟩
  · exact .inl hlt
  · refine .inr ⟨hline, ?_⟩
    rw [UInt32.le_iff_toNat_le, hcolumn]
    exact Nat.le_add_right _ _

theorem eq_of_locates {position : LineColumn} {bytes : List UInt8} {a b : Nat}
    (ha : position.Locates bytes a) (hb : position.Locates bytes b) (hle : a ≤ b)
    (hlength : b ≤ bytes.length) : a = b := by
  rcases locates_cases ha hb hle with hlt | ⟨-, hcolumn⟩
  · exact absurd hlt (UInt32.lt_irrefl _)
  · rw [List.length_take, List.length_drop] at hcolumn
    omega

/-- In a valid tree with a source that is not too long, the location of a node holds the ends of its
span and the lines and columns of both. The lookups that give them read an existing entry of the
line table that is not behind the offset. A line and a column are those of one offset only, and they
come in the order of the offsets. -/
theorem Valid.locates (tree : Tree) (h : tree.Valid) (hsize : tree.sourceSize < 2 ^ 32 - 1) :
    (∀ node : Node tree, node.location.offsetStart.toNat = node.span.start ∧
      node.location.offsetStop.toNat = node.span.stop ∧
      node.location.start.Locates tree.bytes node.span.start ∧
      node.location.stop.Locates tree.bytes node.span.stop) ∧
    (∀ offset ≤ tree.sourceSize, (tree.lineColumn offset).Locates tree.bytes offset ∧
      ∃ line start, countUpTo tree.lineStarts offset 0 tree.lineStarts.size = line + 1 ∧
        tree.lineStarts[line]? = some start ∧ start ≤ offset) ∧
    ∀ a b, a ≤ b → b ≤ tree.sourceSize →
      (tree.lineColumn a = tree.lineColumn b → a = b) ∧
        (tree.lineColumn a).NotAfter (tree.lineColumn b) := by
  refine ⟨fun node => ?_, fun offset hle => ?_, fun a b hle hb => ?_⟩
  · have hle := h.span_le node
    have hstop : node.span.stop ≤ tree.sourceSize := by
      have hrange := Utf8.isRange_iff.1 (h.nodeSound node).range
      have hbound := Utf8.le_size_of_isBoundary hrange.2.2
      rwa [Utf8.size_toList] at hbound
    have hstart : node.span.start ≤ tree.sourceSize := Nat.le_trans hle hstop
    refine ⟨UInt32.toNat_ofNat_of_lt' ?_, UInt32.toNat_ofNat_of_lt' ?_,
      locates_lineColumn hsize hstart, locates_lineColumn hsize hstop⟩
    · simp only [UInt32.size]
      omega
    · simp only [UInt32.size]
      omega
  · obtain ⟨line, start, hcount, hread, hstart, -⟩ := tree.exists_lineStart offset
    exact ⟨locates_lineColumn hsize hle, line, start, hcount, hread, hstart⟩
  · have hfirst := locates_lineColumn hsize (Nat.le_trans hle hb)
    have hsecond := locates_lineColumn hsize hb
    refine ⟨fun heq => ?_, notAfter_of_locates hfirst hsecond hle⟩
    rw [heq] at hfirst
    exact eq_of_locates hfirst hsecond hle hb

/-- A tree of three lines, the second of which is empty. -/
def threeLines : Tree :=
  .ofParts .python "é\n\nx" #[⟨.special .parseError, ⟨0, 5⟩, none, [1, 2, 3], [[1, 3]]⟩,
    ⟨.special .blot, ⟨0, 2⟩, some 0, [], []⟩,
    ⟨.special .innerWhitespace, ⟨2, 4⟩, some 0, [], []⟩,
    ⟨.special .blot, ⟨4, 5⟩, some 0, [], []⟩]

theorem locates_threeLines :
    threeLines.Valid ∧ threeLines.sourceSize < 2 ^ 32 - 1 ∧ ∃ node : Node threeLines,
      node.id = 2 ∧ node.location = ⟨2, 4, ⟨1, 3⟩, ⟨3, 1⟩⟩ ∧
        node.location.start.Locates threeLines.bytes 2 ∧
        node.location.stop.Locates threeLines.bytes 4 ∧
        node.location.start.NotAfter node.location.stop := by
  have hv : threeLines.Valid := by decide +kernel
  have hsize : threeLines.sourceSize < 2 ^ 32 - 1 := by decide +kernel
  let node : Node threeLines := ⟨2, by decide +kernel⟩
  obtain ⟨hnodes, -, horder⟩ := Valid.locates threeLines hv hsize
  obtain ⟨-, -, hstart, hstop⟩ := hnodes node
  have hle : (4 : Nat) ≤ threeLines.sourceSize := by decide +kernel
  exact ⟨hv, hsize, node, rfl, by decide +kernel, hstart, hstop,
    (horder 2 4 (by decide) hle).2⟩

end Tree

end CodeTree
