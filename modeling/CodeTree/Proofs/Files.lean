import CodeTree.FileTree
import CodeTree.Proofs.ByteOrder

/-!
# The files of a tree

A proper tree of files is one that a file system can have: entries have names, and no directory has
two entries of one name. Its listing has every file once (`mem_files`), ordered by comparing paths
component by component in byte order (`Proper.pairwise_files`), which is not the order of the paths
as texts. A path of names leads to the file that is listed under it (`HasFile.follow`).
-/

namespace CodeTree

namespace Path

/-- Whether a text can be the name of an entry in a directory. -/
structure IsName (name : String) : Prop where
  ne_empty : name ≠ ""
  ne_here : name ≠ "."
  ne_above : name ≠ ".."
  slashless : '/' ∉ name.toList

instance (name : String) : Decidable (IsName name) :=
  decidable_of_iff (name ≠ "" ∧ name ≠ "." ∧ name ≠ ".." ∧ '/' ∉ name.toList)
    ⟨fun h => ⟨h.1, h.2.1, h.2.2.1, h.2.2.2⟩,
      fun h => ⟨h.ne_empty, h.ne_here, h.ne_above, h.slashless⟩⟩

/-- Whether one path comes before another when they are compared component by component, and
components byte by byte. -/
def Before : List String → List String → Prop :=
  List.Lex fun a b => BytesBefore (bytes a) (bytes b)

example : Before ["a", "b.c"] ["a.c"] := .rel (by decide)

theorem not_before_self (path : List String) : ¬Before path path := by
  have hbytes : Std.Asymm BytesBefore := List.Lex.asymm (· < ·)
  have hnames : Std.Asymm fun a b => BytesBefore (bytes a) (bytes b) :=
    ⟨fun a b => hbytes.asymm (bytes a) (bytes b)⟩
  intro h
  exact (List.Lex.asymm _).asymm path path h h

end Path

namespace FileTree

/-- Whether the file at a path of names below a tree has the given bytes. -/
inductive HasFile : FileTree → List String → ByteArray → Prop where
  | here (bytes : ByteArray) : HasFile (.file bytes) [] bytes
  | within {entries : List (String × FileTree)} {name : String} {entry : FileTree}
    {path : List String} {bytes : ByteArray} (hm : (name, entry) ∈ entries)
    (h : HasFile entry path bytes) : HasFile (.directory entries) (name :: path) bytes

mutual

/-- Whether entries have names, different ones in each directory. -/
def Proper : FileTree → Prop
  | .file _ => True
  | .directory entries => (entries.map (·.1)).Nodup ∧ ProperEntries entries

def ProperEntries : List (String × FileTree) → Prop
  | [] => True
  | (name, entry) :: rest => Path.IsName name ∧ entry.Proper ∧ ProperEntries rest

end

variable {tree entry : FileTree} {entries : List (String × FileTree)} {name : String}
  {path : List String} {bytes : ByteArray}

theorem properEntries_iff : ProperEntries entries ↔
    ∀ item ∈ entries, Path.IsName item.1 ∧ item.2.Proper := by
  induction entries with
  | nil => simp [ProperEntries]
  | cons first rest ih =>
    obtain ⟨name, entry⟩ := first
    rw [ProperEntries, ih, List.forall_mem_cons, and_assoc]

theorem proper_directory_iff : (directory entries).Proper ↔ (entries.map (·.1)).Nodup ∧
    ∀ item ∈ entries, Path.IsName item.1 ∧ item.2.Proper := by
  rw [Proper, properEntries_iff]

theorem filesOfEach_eq (entries : List (String × FileTree)) :
    filesOfEach entries = entries.map fun item => (item.1, item.2.files) := by
  induction entries with
  | nil =>
    rw [filesOfEach]
    rfl
  | cons first rest ih =>
    obtain ⟨name, entry⟩ := first
    rw [filesOfEach, ih]
    rfl

theorem hasFile_file_iff {other : ByteArray} :
    (file bytes).HasFile path other ↔ path = [] ∧ other = bytes := by
  constructor
  · intro h
    cases h
    exact ⟨rfl, rfl⟩
  · rintro ⟨rfl, rfl⟩
    exact .here other

theorem hasFile_directory_iff : (directory entries).HasFile path bytes ↔
    ∃ item ∈ entries, ∃ rest, path = item.1 :: rest ∧ item.2.HasFile rest bytes := by
  constructor
  · intro h
    cases h with
    | within hm h => exact ⟨_, hm, _, rfl, h⟩
  · rintro ⟨item, hm, rest, rfl, h⟩
    exact .within hm h

theorem perm_sortByName {α : Type} (pairs : List (String × α)) : (sortByName pairs).Perm pairs :=
  List.mergeSort_perm _ _

theorem mem_files_directory : path ∈ (directory entries).files ↔
    ∃ item ∈ entries, ∃ rest ∈ item.2.files, path = item.1 :: rest := by
  rw [files, filesOfEach_eq]
  simp only [List.mem_flatMap, (perm_sortByName _).mem_iff, List.mem_map]
  constructor
  · rintro ⟨_, ⟨item, hm, rfl⟩, rest, hrest, rfl⟩
    exact ⟨item, hm, rest, hrest, rfl⟩
  · rintro ⟨item, hm, rest, hrest, rfl⟩
    exact ⟨_, ⟨item, hm, rfl⟩, rest, hrest, rfl⟩

theorem mem_files (tree : FileTree) (path : List String) :
    path ∈ tree.files ↔ ∃ bytes, tree.HasFile path bytes := by
  induction path generalizing tree with
  | nil =>
    cases tree with
    | file bytes => simp [files, hasFile_file_iff]
    | directory entries => simp [mem_files_directory, hasFile_directory_iff]
  | cons name rest ih =>
    cases tree with
    | file bytes => simp [files, hasFile_file_iff]
    | directory entries =>
      rw [mem_files_directory]
      constructor
      · rintro ⟨item, hm, other, hother, heq⟩
        obtain ⟨rfl, rfl⟩ := List.cons.inj heq
        obtain ⟨bytes, h⟩ := (ih item.2).1 hother
        exact ⟨bytes, .within hm h⟩
      · rintro ⟨bytes, h⟩
        obtain ⟨item, hm, other, heq, h⟩ := hasFile_directory_iff.1 h
        obtain ⟨rfl, rfl⟩ := List.cons.inj heq
        exact ⟨item, hm, rest, (ih item.2).2 ⟨bytes, h⟩, rfl⟩

theorem pairwise_sortByName {α : Type} {pairs : List (String × α)}
    (h : (pairs.map (·.1)).Nodup) : (sortByName pairs).Pairwise fun a b => a.1 < b.1 := by
  have hle : (sortByName pairs).Pairwise fun a b => a.1 ≤ b.1 := by
    refine (List.pairwise_mergeSort ?_ ?_ pairs).imp ?_
    · intro a b c hab hbc
      simp only [Bool.not_eq_true', decide_eq_false_iff_not, String.not_lt] at hab hbc ⊢
      exact String.le_trans hab hbc
    · intro a b
      simp only [Bool.or_eq_true, Bool.not_eq_true', decide_eq_false_iff_not, String.not_lt]
      exact String.le_total a.1 b.1
    · intro a b hab
      simp only [Bool.not_eq_true', decide_eq_false_iff_not, String.not_lt] at hab
      exact hab
  have hnodup : ((sortByName pairs).map (·.1)).Nodup :=
    ((perm_sortByName pairs).map (·.1)).nodup_iff.2 h
  have hne : (sortByName pairs).Pairwise fun a b => a.1 ≠ b.1 := List.pairwise_map.1 hnodup
  refine (hle.and hne).imp ?_
  rintro a b ⟨hle, hne⟩
  by_contra hlt
  exact hne (String.le_antisymm hle (String.not_lt.1 hlt))

mutual

/-- The listing of a proper tree is in the order of its paths, compared component by component, so
no path is in it twice. -/
theorem Proper.pairwise_files : ∀ {tree : FileTree}, tree.Proper → tree.files.Pairwise Path.Before
  | .file _, _ => by
    rw [files]
    exact List.pairwise_singleton _ _
  | .directory entries, h => by
    rw [Proper] at h
    have hnodup : ((filesOfEach entries).map (·.1)).Nodup := by
      rw [filesOfEach_eq, List.map_map]
      exact h.1
    rw [files, List.pairwise_flatMap]
    refine ⟨fun pair hm => ?_,
      (pairwise_sortByName hnodup).imp fun hlt path hpath other hother => ?_⟩
    · rw [(perm_sortByName _).mem_iff, filesOfEach_eq] at hm
      obtain ⟨item, hitem, rfl⟩ := List.mem_map.1 hm
      rw [List.pairwise_map]
      exact (ProperEntries.pairwise_files h.2 item hitem).imp fun hbefore => .cons hbefore
    · -- Below entries of different names, the names decide.
      obtain ⟨_, -, rfl⟩ := List.mem_map.1 hpath
      obtain ⟨_, -, rfl⟩ := List.mem_map.1 hother
      exact .rel (Path.bytesBefore_of_lt hlt)

theorem ProperEntries.pairwise_files : ∀ {entries : List (String × FileTree)},
    ProperEntries entries → ∀ item ∈ entries, item.2.files.Pairwise Path.Before
  | [], _ => by simp
  | (name, entry) :: rest, h => by
    rw [ProperEntries] at h
    exact List.forall_mem_cons.2
      ⟨Proper.pairwise_files h.2.1, ProperEntries.pairwise_files h.2.2⟩

end

theorem Proper.nodup_files (h : tree.Proper) : tree.files.Nodup := by
  refine h.pairwise_files.imp ?_
  rintro first _ hbefore rfl
  exact Path.not_before_self first hbefore

theorem lookup_eq_some_of_mem (hn : (entries.map (·.1)).Nodup) (hm : (name, entry) ∈ entries) :
    entries.lookup name = some entry := by
  induction entries with
  | nil => cases hm
  | cons first rest ih =>
    obtain ⟨other, inner⟩ := first
    obtain ⟨hfirst, hrest⟩ := List.nodup_cons.1 hn
    rcases List.mem_cons.1 hm with heq | hin
    · cases heq
      rw [List.lookup_cons_self]
    · have hne : name ≠ other := by
        rintro rfl
        exact hfirst (List.mem_map.2 ⟨(name, entry), hin, rfl⟩)
      rw [List.lookup_cons, beq_eq_false_iff_ne.2 hne]
      exact ih hrest hin

/-- Where a component leads to from a directory, with the directories around that place. -/
def enter (above : List FileTree) (entries : List (String × FileTree)) (name : String) :
    Except FileError (List FileTree × FileTree) :=
  if name = "" ∨ name = "." then .ok (above, directory entries)
  else if name = ".." then
    match above with
    | [] => .ok ([], empty)
    | outer :: above => .ok (above, outer)
  else
    match entries.lookup name with
    | none => .error .notFound
    | some entry => .ok (directory entries :: above, entry)

theorem follow_directory (above : List FileTree) (entries : List (String × FileTree))
    (name : String) (rest : List String) : follow above (directory entries) (name :: rest) =
      enter above entries name >>= fun place => follow place.1 place.2 rest := by
  unfold enter
  by_cases hhere : name = "" ∨ name = "."
  · rw [if_pos hhere]
    exact if_pos hhere
  · rw [if_neg hhere]
    refine (if_neg hhere).trans ?_
    by_cases habove : name = ".."
    · rw [if_pos habove, if_pos habove]
      cases above <;> rfl
    · rw [if_neg habove, if_neg habove]
      cases entries.lookup name <;> rfl

theorem enter_of_isName (h : Path.IsName name) (above : List FileTree)
    (hlookup : entries.lookup name = some entry) :
    enter above entries name = .ok (directory entries :: above, entry) := by
  unfold enter
  rw [if_neg (not_or.2 ⟨h.ne_empty, h.ne_here⟩), if_neg h.ne_above, hlookup]

theorem HasFile.follow (h : tree.HasFile path bytes) (hp : tree.Proper) (above : List FileTree) :
    FileTree.follow above tree path = .ok (.file bytes) := by
  induction h generalizing above with
  | here bytes => rfl
  | @within entries name entry path bytes hm h ih =>
    obtain ⟨hnodup, hentries⟩ := proper_directory_iff.1 hp
    obtain ⟨hname, hentry⟩ := hentries _ hm
    rw [follow_directory, enter_of_isName hname above (lookup_eq_some_of_mem hnodup hm)]
    exact ih hentry _

theorem HasFile.isName (h : tree.HasFile path bytes) (hp : tree.Proper) :
    ∀ name ∈ path, Path.IsName name := by
  induction h with
  | here bytes => simp
  | within hm h ih =>
    obtain ⟨-, hentries⟩ := proper_directory_iff.1 hp
    obtain ⟨hname, hentry⟩ := hentries _ hm
    exact List.forall_mem_cons.2 ⟨hname, ih hentry⟩

theorem read_file {location : String} (h : tree.resolve location = .ok (.file bytes)) :
    tree.read location =
      if hb : bytes.IsValidUTF8 then .ok (String.fromUTF8 bytes hb) else .error .notUtf8 := by
  rw [read, h]
  by_cases hb : bytes.IsValidUTF8
  · rw [dif_pos hb]
    simp only [bind, Except.bind, String.fromUTF8?, dif_pos hb]
    rfl
  · rw [dif_neg hb]
    simp only [bind, Except.bind, String.fromUTF8?, dif_neg hb]

/-- Following one path and then another, from wherever the first one leads to. -/
theorem exists_follow_append (above : List FileTree) (tree : FileTree) (first : List String) :
    ∃ around, ∀ second, follow above tree (first ++ second) =
      follow above tree first >>= fun inner => follow around inner second := by
  induction first generalizing above tree with
  | nil => exact ⟨above, fun second => rfl⟩
  | cons name rest ih =>
    cases tree with
    | file bytes => exact ⟨above, fun second => rfl⟩
    | directory entries =>
      cases hplace : enter above entries name with
      | error error =>
        refine ⟨above, fun second => ?_⟩
        rw [List.cons_append, follow_directory, follow_directory, hplace]
        rfl
      | ok place =>
        obtain ⟨around, h⟩ := ih place.1 place.2
        refine ⟨around, fun second => ?_⟩
        rw [List.cons_append, follow_directory, follow_directory, hplace]
        exact h second

end FileTree

end CodeTree
