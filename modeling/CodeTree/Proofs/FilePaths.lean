import CodeTree.Proofs.Files
import CodeTree.Language

/-!
# Paths of files

Below a directory, a file is named by the path of the directory joined with the names that lead to
the file. Such a path resolves to the file (`HasFile.resolve_join`), and its extension is that of
the last name (`Language.ofPath?_join`), however the path of the directory is written.
-/

namespace CodeTree

namespace Path

variable {path name : String} {names : List String}

/-- All components of a path, whether they matter or not. -/
def parts (path : String) : List String := (splitOn '/' path.toList).map String.ofList

theorem splitOn_ne_nil (sep : Char) (chars : List Char) : splitOn sep chars ≠ [] := by
  cases chars with
  | nil => simp [splitOn]
  | cons c rest =>
    rw [splitOn]
    split
    · simp
    · split <;> simp

theorem splitOn_append (sep : Char) (first second : List Char) :
    splitOn sep (first ++ sep :: second) = splitOn sep first ++ splitOn sep second := by
  induction first with
  | nil => simp [splitOn]
  | cons c rest ih =>
    by_cases hc : c = sep
    · simp [splitOn, hc, ih]
    · rw [List.cons_append, splitOn, if_neg hc, ih, splitOn, if_neg hc]
      cases hs : splitOn sep rest with
      | nil => exact absurd hs (splitOn_ne_nil sep rest)
      | cons piece pieces => rfl

theorem splitOn_of_not_mem {sep : Char} {chars : List Char} (h : sep ∉ chars) :
    splitOn sep chars = [chars] := by
  induction chars with
  | nil => rfl
  | cons c rest ih =>
    rw [List.mem_cons, not_or] at h
    rw [splitOn, if_neg (Ne.symm h.1), ih h.2]

theorem parts_of_isName (h : IsName name) : parts name = [name] := by
  rw [parts, splitOn_of_not_mem h.slashless, List.map_singleton, String.ofList_toList]

theorem endsInSlash_iff : endsInSlash path = true ↔ ∃ before, path.toList = before ++ ['/'] := by
  rw [endsInSlash, beq_iff_eq, List.getLast?_eq_some_iff]

def unslashed (path : String) : List Char :=
  if endsInSlash path then path.toList.dropLast else path.toList

theorem toList_eq (path : String) :
    path.toList = unslashed path ∨ path.toList = unslashed path ++ ['/'] := by
  rw [unslashed]
  split
  · next hslash =>
    obtain ⟨before, hbefore⟩ := endsInSlash_iff.1 hslash
    rw [hbefore, List.dropLast_concat]
    exact .inr rfl
  · exact .inl rfl

/-- A slash stands between a path and the name that it is joined with, and no second one. -/
theorem toList_join (path name : String) :
    (join path name).toList = unslashed path ++ '/' :: name.toList := by
  rw [join, unslashed]
  split
  · next hslash =>
    obtain ⟨before, hbefore⟩ := endsInSlash_iff.1 hslash
    rw [String.toList_append, hbefore, List.dropLast_concat, List.append_assoc]
    rfl
  · rw [String.toList_append, String.toList_append, List.append_assoc]
    rfl

theorem endsInSlash_join (h : IsName name) : endsInSlash (join path name) = false := by
  rw [← Bool.not_eq_true, endsInSlash_iff]
  rintro ⟨before, hbefore⟩
  rw [toList_join] at hbefore
  rcases List.eq_nil_or_concat name.toList with hnil | ⟨front, last, hlast⟩
  · exact h.ne_empty (String.toList_eq_nil_iff.1 hnil)
  · rw [hlast, List.concat_eq_append, ← List.cons_append, ← List.append_assoc] at hbefore
    obtain ⟨-, hslash⟩ := List.append_inj' hbefore rfl
    cases hslash
    exact h.slashless (by simp [hlast])

/-- The components of a path without those behind a slash at its end. -/
def base (path : String) : List String := (splitOn '/' (unslashed path)).map String.ofList

theorem parts_eq (path : String) : parts path = base path ∨ parts path = base path ++ [""] := by
  rcases toList_eq path with h | h
  · rw [parts, h]
    exact .inl rfl
  · rw [parts, h, splitOn_append, List.map_append]
    exact .inr rfl

theorem parts_join (h : IsName name) : parts (join path name) = base path ++ [name] := by
  rw [parts, toList_join, splitOn_append, List.map_append, ← parts, parts_of_isName h]
  rfl

theorem base_join (h : IsName name) : base (join path name) = base path ++ [name] := by
  rw [base, unslashed, endsInSlash_join h, ← parts_join h]
  rfl

/-- Behind the components of a path come the names that it is joined with. -/
theorem parts_foldl_join (hne : names ≠ []) (h : ∀ name ∈ names, IsName name) :
    parts (names.foldl join path) = base path ++ names := by
  induction names generalizing path with
  | nil => exact absurd rfl hne
  | cons name rest ih =>
    obtain ⟨hname, hrest⟩ := List.forall_mem_cons.1 h
    rw [List.foldl_cons]
    by_cases hnil : rest = []
    · rw [hnil, List.foldl_nil, parts_join hname]
    · rw [ih hnil hrest, base_join hname, List.append_assoc]
      rfl

theorem exists_toList_foldl_join (path : String) (names : List String) :
    ∃ after, (names.foldl join path).toList = path.toList ++ after := by
  induction names generalizing path with
  | nil => exact ⟨[], by simp⟩
  | cons name rest ih =>
    obtain ⟨after, hafter⟩ := ih (join path name)
    have hjoin : ∃ between, (join path name).toList = path.toList ++ between := by
      rw [toList_join]
      rcases toList_eq path with h | h
      · exact ⟨'/' :: name.toList, by rw [h]⟩
      · exact ⟨name.toList, by rw [h, List.append_assoc]; rfl⟩
    obtain ⟨between, hbetween⟩ := hjoin
    exact ⟨between ++ after, by rw [List.foldl_cons, hafter, hbetween, List.append_assoc]⟩

theorem fileName?_foldl_join (hne : names ≠ []) (h : ∀ name ∈ names, IsName name) :
    fileName? (names.foldl join path) = names.getLast? := by
  obtain ⟨front, last, rfl⟩ := (List.eq_nil_or_concat names).resolve_left hne
  have hlast : IsName last := h last (by simp)
  rw [fileName?, components, ← parts, parts_foldl_join hne h, List.concat_eq_append,
    ← List.append_assoc, List.filter_append]
  simp [hlast.ne_empty, hlast.ne_here, hlast.ne_above]

end Path

def Language.ofNames? (names : List String) : Option Language :=
  (names.getLast?.bind Path.extensionOf?).bind Language.ofExtension?

theorem Language.ofPath?_foldl_join {path : String} {names : List String} (hne : names ≠ [])
    (h : ∀ name ∈ names, Path.IsName name) :
    Language.ofPath? (names.foldl Path.join path) = Language.ofNames? names := by
  rw [Language.ofPath?, Path.extension?, Path.fileName?_foldl_join hne h, Language.ofNames?]

namespace FileTree

variable {tree : FileTree} {entries : List (String × FileTree)} {path : String}
  {names : List String} {bytes : ByteArray}

/-- Where a path starts: an absolute one starts outside the tree. -/
def start (tree : FileTree) (path : String) : FileTree :=
  if path.toList.head? = some '/' then empty else tree

theorem resolve_eq (tree : FileTree) (path : String) : tree.resolve path =
      if path.toList = [] then .error .notFound
      else (tree.start path).follow [] (Path.parts path) := by
  rw [resolve, start]
  cases hpath : path.toList with
  | nil => rfl
  | cons c rest =>
    by_cases hc : c = '/'
    · subst hc
      simp [Path.parts, hpath]
    · simp [Path.parts, hpath, hc]

/-- A slash at the end of the path of a directory does not matter. -/
theorem follow_base (hne : path.toList ≠ [])
    (hd : tree.resolve path = .ok (.directory entries)) :
    follow [] (tree.start path) (Path.base path) = .ok (.directory entries) := by
  rw [resolve_eq, if_neg hne] at hd
  rcases Path.parts_eq path with hparts | hparts
  · rwa [hparts] at hd
  · obtain ⟨around, hfollow⟩ := exists_follow_append [] (tree.start path) (Path.base path)
    rw [hparts, hfollow] at hd
    cases hbase : follow [] (tree.start path) (Path.base path) with
    | error error =>
      rw [hbase] at hd
      cases hd
    | ok inner =>
      rw [hbase] at hd
      cases inner with
      | file bytes => cases hd
      | directory others => exact hd

/-- The path of a directory, joined with the names that lead to a file below it, leads to that
file. -/
theorem HasFile.resolve_join (h : (directory entries).HasFile names bytes)
    (hp : (directory entries).Proper) (hd : tree.resolve path = .ok (.directory entries)) :
    tree.resolve (names.foldl Path.join path) = .ok (.file bytes) := by
  have hnames := h.isName hp
  have hne : names ≠ [] := by
    rintro rfl
    cases h
  have hpath : path.toList ≠ [] := by
    intro hnil
    rw [resolve_eq, if_pos hnil] at hd
    cases hd
  obtain ⟨after, hafter⟩ := Path.exists_toList_foldl_join path names
  have hstart : tree.start (names.foldl Path.join path) = tree.start path := by
    rw [start, start, hafter, List.head?_append_of_ne_nil _ hpath]
  have hbase := follow_base hpath hd
  obtain ⟨around, hfollow⟩ := exists_follow_append [] (tree.start path) (Path.base path)
  rw [resolve_eq, if_neg (by simp [hafter, hpath]), hstart, Path.parts_foldl_join hne hnames,
    hfollow, hbase]
  exact h.follow hp around

end FileTree

end CodeTree
