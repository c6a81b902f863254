import CodeTree.Json.Reader
import CodeTree.Proofs.JsonTokens
import Mathlib.Data.List.Nodup

/-!
# Printed values are read back

Both printed forms of a value are split into the same tokens, and the value is read from these. What
is read never has a key twice, and a literal is read as what it stands for, so this holds of the
values that are `Proper`: the keys of each object are distinct, and literals are read as literals.
-/

namespace CodeTree.Json

mutual

def tokens : Json → List Token
  | .null => [.null]
  | .bool value => [.bool value]
  | .nat value => [.nat value]
  | .number literal => [.number literal]
  | .string text => [.string text]
  | .array items => .openBracket :: (joinedTokens (itemTokens items) ++ [.closeBracket])
  | .object fields => .openBrace :: (joinedTokens (fieldTokens fields) ++ [.closeBrace])

def itemTokens : List Json → List (List Token)
  | [] => []
  | item :: rest => item.tokens :: itemTokens rest

def fieldTokens : List (String × Json) → List (List Token)
  | [] => []
  | (key, value) :: rest => (.string key :: .colon :: value.tokens) :: fieldTokens rest

end

mutual

/-- Whether a value can be read from its printed forms. -/
def Proper : Json → Prop
  | .number literal => (∀ c ∈ literal.toList, isNumberChar c = true) ∧
      numberToken? literal.toList = some (.number literal)
  | .array items => AllProper items
  | .object fields => (fields.map (·.1)).Nodup ∧ FieldsProper fields
  | _ => True

def AllProper : List Json → Prop
  | [] => True
  | item :: rest => item.Proper ∧ AllProper rest

def FieldsProper : List (String × Json) → Prop
  | [] => True
  | (_, value) :: rest => value.Proper ∧ FieldsProper rest

end

theorem allProper_iff {items : List Json} : AllProper items ↔ ∀ item ∈ items, item.Proper := by
  induction items with
  | nil => simp [AllProper]
  | cons item rest ih => simp [AllProper, ih]

mutual

theorem scans_compactChars : ∀ json : Json, json.Proper → Scans (compactChars json) json.tokens
  | .null, _ => scans_word (by decide) fun _ => rfl
  | .bool true, _ => scans_word (by decide) fun _ => rfl
  | .bool false, _ => scans_word (by decide) fun _ => rfl
  | .nat value, _ => scans_nat value
  | .number _, h => scans_number h.1 h.2
  | .string text, _ => (breaks_quote text).scans
  | .array items, h =>
    ((breaks_mark rfl).enclose (scans_joined (breaks_mark rfl) (scans_compactItems items h))
      (breaks_mark rfl)).scans
  | .object fields, h =>
    ((breaks_mark rfl).enclose (scans_joined (breaks_mark rfl) (scans_compactFields fields h.2))
      (breaks_mark rfl)).scans

theorem scans_compactItems : ∀ items : List Json, AllProper items →
    List.Forall₂ Scans (compactItems items) (itemTokens items)
  | [], _ => .nil
  | item :: rest, h => .cons (scans_compactChars item h.1) (scans_compactItems rest h.2)

theorem scans_compactFields : ∀ fields : List (String × Json), FieldsProper fields →
    List.Forall₂ Scans (compactFields fields) (fieldTokens fields)
  | [], _ => .nil
  | (key, value) :: rest, h =>
    .cons (((breaks_quote key).append (breaks_mark rfl)).append_scans
      (scans_compactChars value h.1)) (scans_compactFields rest h.2)

end

theorem breaks_bracketed {opening closing : Char} {first last : Token}
    (hfirst : punctuation? opening = some first) (hlast : punctuation? closing = some last)
    (level : Nat) {lines : List (List Char)} {lists : List (List Token)}
    (h : List.Forall₂ Scans lines lists) :
    Breaks (bracketed level opening closing lines) (first :: (joinedTokens lists ++ [last])) := by
  have hcomma : Breaks (',' :: lineStart (level + 1)) [.comma] :=
    (breaks_mark rfl).append (breaks_lineStart _)
  have hlines := ((breaks_mark hfirst).append (breaks_lineStart (level + 1))).enclose
    (scans_joined hcomma h) ((breaks_lineStart level).append (breaks_mark hlast))
  rw [bracketed]
  cases h with
  | nil => exact (breaks_mark hfirst).append (breaks_mark hlast)
  | cons hline hrest => simpa using hlines

mutual

theorem scans_prettyChars (level : Nat) : ∀ json : Json, json.Proper →
    Scans (prettyChars level json) json.tokens
  | .null, _ => scans_word (by decide) fun _ => rfl
  | .bool true, _ => scans_word (by decide) fun _ => rfl
  | .bool false, _ => scans_word (by decide) fun _ => rfl
  | .nat value, _ => scans_nat value
  | .number _, h => scans_number h.1 h.2
  | .string text, _ => (breaks_quote text).scans
  | .array items, h =>
    (breaks_bracketed rfl rfl level (scans_prettyItems (level + 1) items h)).scans
  | .object fields, h =>
    (breaks_bracketed rfl rfl level (scans_prettyFields (level + 1) fields h.2)).scans

theorem scans_prettyItems (level : Nat) : ∀ items : List Json, AllProper items →
    List.Forall₂ Scans (prettyItems level items) (itemTokens items)
  | [], _ => .nil
  | item :: rest, h => .cons (scans_prettyChars level item h.1) (scans_prettyItems level rest h.2)

theorem scans_prettyFields (level : Nat) : ∀ fields : List (String × Json), FieldsProper fields →
    List.Forall₂ Scans (prettyFields level fields) (fieldTokens fields)
  | [], _ => .nil
  | (key, value) :: rest, h =>
    .cons (((breaks_quote key).append ((breaks_mark rfl).append (breaks_blank rfl))).append_scans
      (scans_prettyChars level value h.1)) (scans_prettyFields level rest h.2)

end

theorem ofFields_of_nodup {fields : List (String × Json)} (h : (fields.map (·.1)).Nodup) :
    ofFields fields = .object fields := by
  have hfold : ∀ before after : List (String × Json), ((before ++ after).map (·.1)).Nodup →
      after.foldl (fun object field => setField object field.1 field.2) before =
        before ++ after := by
    intro before after hn
    induction after generalizing before with
    | nil => simp
    | cons field rest ih =>
      have hnew : before.any (·.1 == field.1) = false := by
        rw [List.any_eq_false]
        intro other hm he
        rw [List.map_append, List.map_cons, List.nodup_append] at hn
        exact hn.2.2 _ (List.mem_map_of_mem hm) _ List.mem_cons_self (by simpa using he)
      have hset : setField before field.1 field.2 = before ++ [field] := by
        rw [setField, hnew]
        rfl
      rw [List.foldl_cons, hset, ih (before ++ [field]) (by simpa using hn)]
      simp
  rw [ofFields, hfold [] fields h, List.nil_append]

theorem head?_tokens (json : Json) :
    ∃ token rest, json.tokens = token :: rest ∧ token ≠ .closeBracket := by
  cases json <;> rw [tokens] <;> exact ⟨_, _, rfl, by simp⟩

variable {bound : Nat} {first second rest : List Token}

theorem value?_openBracket {token : Token} (h : token ≠ .closeBracket) :
    value? (bound + 1) (.openBracket :: token :: rest) =
      (items? bound (token :: rest)).map fun read => (.array read.1, read.2) := by
  rw [value?]
  · cases items? bound (token :: rest) <;> rfl
  · rintro after ⟨⟩
    exact h rfl

theorem value?_openBrace {key : String} :
    value? (bound + 1) (.openBrace :: .string key :: rest) =
      (fields? bound (.string key :: rest)).map fun read => (ofFields read.1, read.2) := by
  rw [value?]
  · cases fields? bound (.string key :: rest) <;> rfl
  · rintro after ⟨⟩

theorem items?_last {item : Json} (h : value? bound first = some (item, .closeBracket :: rest)) :
    items? (bound + 1) first = some ([item], rest) := by
  rw [items?, h]
  rfl

theorem items?_comma {item : Json} {items : List Json}
    (h : value? bound first = some (item, .comma :: second))
    (h' : items? bound second = some (items, rest)) :
    items? (bound + 1) first = some (item :: items, rest) := by
  rw [items?, h]
  simp only [Option.bind_eq_bind, Option.bind_some, h']
  rfl

theorem fields?_last {key : String} {value : Json}
    (h : value? bound first = some (value, .closeBrace :: rest)) :
    fields? (bound + 1) (.string key :: .colon :: first) = some ([(key, value)], rest) := by
  rw [fields?]
  simp only [h, Option.bind_eq_bind, Option.bind_some]
  rfl

theorem fields?_comma {key : String} {value : Json} {fields : List (String × Json)}
    (h : value? bound first = some (value, .comma :: second))
    (h' : fields? bound second = some (fields, rest)) :
    fields? (bound + 1) (.string key :: .colon :: first) =
      some ((key, value) :: fields, rest) := by
  rw [fields?]
  simp only [h, Option.bind_eq_bind, Option.bind_some, h']
  rfl

theorem joinedTokens_cons (tokens : List Token) {lists : List (List Token)} (h : lists ≠ []) :
    joinedTokens (tokens :: lists) = tokens ++ .comma :: joinedTokens lists := by
  rw [joinedTokens]
  exact h

theorem exists_joinedTokens (token : Token) (tokens : List Token) (lists : List (List Token)) :
    ∃ rest, joinedTokens ((token :: tokens) :: lists) = token :: rest := by
  cases lists with
  | nil => exact ⟨tokens, rfl⟩
  | cons list lists =>
    rw [joinedTokens_cons _ (List.cons_ne_nil _ _)]
    exact ⟨_, rfl⟩

mutual

/-- A value is read from its tokens. An item takes one step more than the value in it, so twice the
number of tokens is enough. -/
theorem value?_tokens : ∀ (json : Json) (bound : Nat) (rest : List Token), json.Proper →
    2 * json.tokens.length ≤ bound → value? bound (json.tokens ++ rest) = some (json, rest)
  | json, 0, rest, _, hb => by
    obtain ⟨token, more, htokens, -⟩ := head?_tokens json
    rw [htokens, List.length_cons] at hb
    omega
  | .null, bound + 1, rest, _, _ => by rw [tokens, List.singleton_append, value?]
  | .bool value, bound + 1, rest, _, _ => by rw [tokens, List.singleton_append, value?]
  | .nat value, bound + 1, rest, _, _ => by rw [tokens, List.singleton_append, value?]
  | .number literal, bound + 1, rest, _, _ => by rw [tokens, List.singleton_append, value?]
  | .string text, bound + 1, rest, _, _ => by rw [tokens, List.singleton_append, value?]
  | .array items, bound + 1, rest, h, hb => by
    have hitems := items?_tokens items bound rest
    rw [tokens, List.length_cons, List.length_append, List.length_singleton] at hb
    rw [tokens, List.cons_append, List.append_assoc, List.singleton_append]
    cases items with
    | nil => rw [itemTokens, joinedTokens, List.nil_append, value?]
    | cons item items =>
      obtain ⟨token, more, htokens, hne⟩ := head?_tokens item
      have hread := hitems (List.cons_ne_nil _ _) h (by omega)
      rw [itemTokens, htokens] at hread ⊢
      obtain ⟨tail, htail⟩ := exists_joinedTokens token more (itemTokens items)
      rw [htail, List.cons_append] at hread ⊢
      rw [value?_openBracket hne, hread]
      rfl
  | .object fields, bound + 1, rest, h, hb => by
    have hfields := fields?_tokens fields bound rest
    rw [tokens, List.length_cons, List.length_append, List.length_singleton] at hb
    rw [tokens, List.cons_append, List.append_assoc, List.singleton_append]
    cases fields with
    | nil => rw [fieldTokens, joinedTokens, List.nil_append, value?]
    | cons field fields =>
      have hread := hfields (List.cons_ne_nil _ _) h.2 (by omega)
      obtain ⟨key, value⟩ := field
      rw [fieldTokens] at hread ⊢
      obtain ⟨tail, htail⟩ :=
        exists_joinedTokens (.string key) (.colon :: value.tokens) (fieldTokens fields)
      rw [htail, List.cons_append] at hread ⊢
      rw [value?_openBrace, hread, Option.map_some, ofFields_of_nodup h.1]

theorem items?_tokens : ∀ (items : List Json) (bound : Nat) (rest : List Token), items ≠ [] →
    AllProper items → 2 * (joinedTokens (itemTokens items)).length + 1 ≤ bound →
      items? bound (joinedTokens (itemTokens items) ++ .closeBracket :: rest) = some (items, rest)
  | [], _, _, hne, _, _ => absurd rfl hne
  | item :: items, bound, rest, _, h, hb => by
    obtain ⟨bound, rfl⟩ : ∃ b, bound = b + 1 := ⟨bound - 1, by omega⟩
    have hitem := fun rest => value?_tokens item bound rest h.1
    have hitems := items?_tokens items bound rest
    cases items with
    | nil => exact items?_last (hitem _ (by simpa [itemTokens, joinedTokens] using hb))
    | cons next items =>
      have hne : itemTokens (next :: items) ≠ [] := by simp [itemTokens]
      rw [itemTokens, joinedTokens_cons _ hne, List.length_append, List.length_cons] at hb
      rw [itemTokens, joinedTokens_cons _ hne, List.append_assoc, List.cons_append]
      exact items?_comma (hitem _ (by omega))
        (hitems (List.cons_ne_nil _ _) h.2 (by omega))

theorem fields?_tokens : ∀ (fields : List (String × Json)) (bound : Nat) (rest : List Token),
    fields ≠ [] → FieldsProper fields →
      2 * (joinedTokens (fieldTokens fields)).length + 1 ≤ bound →
        fields? bound (joinedTokens (fieldTokens fields) ++ .closeBrace :: rest) =
          some (fields, rest)
  | [], _, _, hne, _, _ => absurd rfl hne
  | (key, value) :: fields, bound, rest, _, h, hb => by
    obtain ⟨bound, rfl⟩ : ∃ b, bound = b + 1 := ⟨bound - 1, by omega⟩
    have hvalue := fun rest => value?_tokens value bound rest h.1
    have hfields := fields?_tokens fields bound rest
    cases fields with
    | nil =>
      refine fields?_last (hvalue _ ?_)
      simp only [fieldTokens, joinedTokens, List.length_cons] at hb
      omega
    | cons next fields =>
      have hne : fieldTokens (next :: fields) ≠ [] := by simp [fieldTokens]
      rw [fieldTokens, joinedTokens_cons _ hne] at hb ⊢
      simp only [List.length_append, List.length_cons] at hb
      simp only [List.cons_append, List.append_assoc]
      exact fields?_comma (hvalue _ (by omega)) (hfields (List.cons_ne_nil _ _) h.2 (by omega))

end

/-- A text that is split into the tokens of a value is read as the value. -/
theorem parse?_of_scans {json : Json} {text : List Char} (h : Scans text json.tokens)
    (hp : json.Proper) : parse? (String.ofList text) = some json := by
  have htokens : tokens? text = some json.tokens := by
    have hsplit := h [] [] (by simp [Stops]) rfl
    rwa [List.append_nil, List.append_nil] at hsplit
  have hvalue := value?_tokens json (2 * json.tokens.length) [] hp (Nat.le_refl _)
  rw [List.append_nil] at hvalue
  rw [parse?, String.toList_ofList, htokens, Option.bind_some, ofTokens?, hvalue]

theorem parse?_compact {json : Json} (h : json.Proper) : parse? json.compact = some json :=
  parse?_of_scans (scans_compactChars json h) h

theorem parse?_pretty {json : Json} (h : json.Proper) : parse? json.pretty = some json :=
  parse?_of_scans (scans_prettyChars 0 json h) h

end CodeTree.Json
