import CodeTree.Proofs.ByteOrder
import CodeTree.Proofs.Declarations

/-!
# Names of kinds

Within a tree, a kind is known by the name of its production alone: the special kinds and the
productions of one language all have different names (`BelongsTo.eq_of_name`), and none of the names
has a space or a bracket in it, so a name ends where such a character follows
(`BelongsTo.name_append_inj`). The tables are compared by the bytes of the names.
-/

namespace CodeTree

/-- Of two texts that consist of a word and what follows it, where no word has a character that
ends words, the words and what follows them are the same if the texts are. -/
theorem append_inj_of_words {α : Type} {p : α → Bool} {x y u v : List α}
    (hx : ∀ c ∈ x, p c = true) (hy : ∀ c ∈ y, p c = true)
    (hu : ∀ c ∈ u.head?, p c = false) (hv : ∀ c ∈ v.head?, p c = false)
    (h : x ++ u = y ++ v) : x = y ∧ u = v := by
  have hends : ∀ {rest : List α}, (∀ c ∈ rest.head?, p c = false) → rest.takeWhile p = [] := by
    intro rest hrest
    cases rest with
    | nil => rfl
    | cons c rest => exact List.takeWhile_cons_of_neg (by simp [hrest c rfl])
  have hword := congrArg (List.takeWhile p) h
  rw [List.takeWhile_append_of_pos hx, List.takeWhile_append_of_pos hy, hends hu, hends hv,
    List.append_nil, List.append_nil] at hword
  subst hword
  exact ⟨rfl, List.append_cancel_left h⟩

namespace Language

/-- The productions of the kinds that a tree of the language may have: its own and the special
ones. -/
def vocabulary (language : Language) : List Production :=
  language.grammar ++ SpecialKind.all.map SpecialKind.production

def nameCode (name : String) : Nat :=
  (Path.bytes name).foldl (fun code byte => 256 * code + byte.toNat) 0

theorem nodup_nameCodes (language : Language) :
    (language.vocabulary.map fun production => nameCode production.name).Nodup := by
  cases language <;> decide +kernel

theorem all_bytes_vocabulary (language : Language) :
    (language.vocabulary.all fun production =>
      (Path.bytes production.name).all fun byte => byte != 32 && byte != 41) = true := by
  cases language <;> decide +kernel

theorem bytes_of_mem_vocabulary (language : Language) : ∀ production ∈ language.vocabulary,
    ∀ byte ∈ Path.bytes production.name, byte ≠ 32 ∧ byte ≠ 41 := by
  intro production hm byte hb
  have hname := List.all_eq_true.1 language.all_bytes_vocabulary production hm
  simpa using List.all_eq_true.1 hname byte hb

end Language

/-- Whether a character may stand behind a name in an expression. -/
def endsName (c : Char) : Bool := c == ' ' || c == ')'

theorem not_endsName_of_mem_name {language : Language} {production : Production}
    (hm : production ∈ language.vocabulary) : ∀ c ∈ production.name.toList, !endsName c := by
  intro c hc
  rw [Bool.not_eq_true', Bool.eq_false_iff]
  intro hends
  have hbyte : ∀ byte ∈ String.utf8EncodeChar c, byte ≠ 32 ∧ byte ≠ 41 := by
    intro byte hb
    apply language.bytes_of_mem_vocabulary production hm
    rw [Path.bytes_eq, List.mem_flatMap]
    exact ⟨c, hc, hb⟩
  rw [endsName, Bool.or_eq_true, beq_iff_eq, beq_iff_eq] at hends
  rcases hends with rfl | rfl
  · exact (hbyte 32 (by decide)).1 rfl
  · exact (hbyte 41 (by decide)).2 rfl

namespace NodeKind

/-- Whether a kind is special or of a language. -/
def BelongsTo (language : Language) (kind : NodeKind) : Prop :=
  ∀ own, kind.language? = some own → own = language

variable {language : Language} {kind other : NodeKind}

theorem BelongsTo.exists_eq (h : kind.BelongsTo language) :
    (∃ index : Fin language.grammar.length, kind = .grammar language index) ∨
      ∃ special, kind = .special special := by
  cases kind with
  | special special => exact .inr ⟨special, rfl⟩
  | grammar own index =>
    obtain rfl := h own rfl
    exact .inl ⟨index, rfl⟩

theorem BelongsTo.mem_vocabulary (h : kind.BelongsTo language) :
    kind.production ∈ language.vocabulary := by
  rcases h.exists_eq with ⟨index, rfl⟩ | ⟨special, rfl⟩
  · exact List.mem_append_left _ (List.getElem_mem index.isLt)
  · exact List.mem_append_right _ (List.mem_map_of_mem special.mem_all)

/-- Kinds of one language with the same name are the same. -/
theorem BelongsTo.eq_of_name (h : kind.BelongsTo language) (h' : other.BelongsTo language)
    (hname : kind.name = other.name) : kind = other := by
  have hcode := congrArg Language.nameCode hname
  have hnodup := language.nodup_nameCodes
  rw [Language.vocabulary, List.map_append, List.map_map, List.nodup_append] at hnodup
  obtain ⟨hgrammar, hspecial, hapart⟩ := hnodup
  have hown : ∀ index : Fin language.grammar.length,
      Language.nameCode (NodeKind.grammar language index).name ∈
        language.grammar.map fun production => Language.nameCode production.name := fun index =>
    List.mem_map.2 ⟨_, List.getElem_mem index.isLt, rfl⟩
  have hshared : ∀ special : SpecialKind, Language.nameCode (NodeKind.special special).name ∈
      SpecialKind.all.map ((fun production => Language.nameCode production.name) ∘
        SpecialKind.production) := fun special =>
    List.mem_map.2 ⟨special, special.mem_all, rfl⟩
  rcases h.exists_eq with ⟨i, rfl⟩ | ⟨a, rfl⟩ <;> rcases h'.exists_eq with ⟨j, rfl⟩ | ⟨b, rfl⟩
  · let codes := language.grammar.map fun production => Language.nameCode production.name
    have hi : i.val < codes.length := by simp [codes]
    have hj : j.val < codes.length := by simp [codes]
    have hsame : codes[i.val] = codes[j.val] := by
      rw [List.getElem_map, List.getElem_map]
      exact hcode
    rw [Fin.ext (hgrammar.getElem_inj_iff.1 hsame)]
  · exact absurd hcode (hapart _ (hown i) _ (hshared b))
  · exact absurd hcode.symm (hapart _ (hown j) _ (hshared a))
  · exact congrArg NodeKind.special
      (List.inj_on_of_nodup_map hspecial a.mem_all b.mem_all hcode)

theorem belongsTo_special (language : Language) (kind : SpecialKind) :
    (special kind).BelongsTo language := by rintro _ ⟨⟩

theorem belongsTo_of_language (h : kind.language? = some language) : kind.BelongsTo language :=
  fun _ hown => Option.some.inj (hown.symm.trans h)

theorem mem_allOf_iff : kind ∈ allOf language ↔ kind.language? = some language := by
  cases kind with
  | special special => simp [allOf, language?]
  | grammar own index =>
    constructor
    · intro h
      obtain ⟨_, -, heq⟩ := List.mem_map.1 h
      rw [← heq]
      rfl
    · rintro ⟨⟩
      exact List.mem_map_of_mem (List.mem_finRange index)

/-- However a kind of a language is looked up by its name, it is the one kind with this name. -/
theorem eq_some_iff_of_lookup {name : String} {found : Option NodeKind}
    (hs : ∀ other ∈ found, other.language? = some language ∧ other.name = name)
    (hn : found = none → ∀ other : NodeKind, other.language? = some language →
      other.name ≠ name) :
    found = some kind ↔ kind.language? = some language ∧ kind.name = name := by
  constructor
  · exact hs kind
  · rintro ⟨hlanguage, hname⟩
    cases found with
    | none => exact absurd hname (hn rfl kind hlanguage)
    | some other =>
      obtain ⟨hother, hsame⟩ := hs other rfl
      have heq := (belongsTo_of_language hother).eq_of_name (belongsTo_of_language hlanguage)
        (hsame.trans hname.symm)
      rw [heq]

theorem find?_allOf_eq_some_iff {name : String} :
    (allOf language).find? (fun kind => kind.name == name) = some kind ↔
      kind.language? = some language ∧ kind.name = name := by
  apply eq_some_iff_of_lookup
  · intro other h
    exact ⟨mem_allOf_iff.1 (List.mem_of_find?_eq_some h), by simpa using List.find?_some h⟩
  · intro h other hlanguage hname
    exact List.find?_eq_none.1 h other (mem_allOf_iff.2 hlanguage) (beq_iff_eq.2 hname)

theorem resolve?_eq_some_iff {name : String} :
    resolve? language name = some kind ↔ kind.language? = some language ∧ kind.name = name := by
  apply eq_some_iff_of_lookup
  · intro other h
    obtain ⟨index, hindex, rfl⟩ := Option.map_eq_some_iff.1 h
    exact ⟨rfl, beq_iff_eq.1 (List.findFinIdx?_eq_some_iff.1 hindex).1⟩
  · intro h other hlanguage hname
    cases other with
    | special special => cases hlanguage
    | grammar own index =>
      cases hlanguage
      have hnone := List.findFinIdx?_eq_none_iff.1 (Option.map_eq_none_iff.1 h)
      exact hnone _ (List.getElem_mem index.isLt) (beq_iff_eq.2 hname)

/-- A name that something follows by which names end says which kind it is, and what follows. -/
theorem BelongsTo.name_append_inj (h : kind.BelongsTo language) (h' : other.BelongsTo language)
    {u v : List Char} (hu : ∀ c ∈ u.head?, endsName c = true)
    (hv : ∀ c ∈ v.head?, endsName c = true) (heq : kind.name.toList ++ u = other.name.toList ++ v) :
    kind = other ∧ u = v := by
  obtain ⟨hname, hrest⟩ := append_inj_of_words (p := fun c => !endsName c)
    (not_endsName_of_mem_name h.mem_vocabulary) (not_endsName_of_mem_name h'.mem_vocabulary)
    (by simpa using hu) (by simpa using hv) heq
  exact ⟨h.eq_of_name h' (String.toList_injective hname), hrest⟩

end NodeKind

end CodeTree
