import Mathlib.Data.Option.Basic
import TypedMirror.Proofs.Language.Phrases

/-!
# The clauses that sort and limit

Each of them may be left out, so a clause that is not there must not be mistaken for one that is:
what the later clauses start with (`Starts`) is nothing that an earlier one takes.

* `isFinished_tail_iff` — they are read to the end just if they have their shapes.
-/

namespace TypedMirror.Grammar

variable {t : Token} {ts us rest s : List Token} {words : List String} {word : String}

/-! ## First tokens -/

/-- The first token, if there is one, is a semicolon or one of some words. -/
def Starts (words : List String) (ts : List Token) : Prop :=
  ∀ t ∈ ts.head?, t.isPunct ';' = true ∨ ∃ word ∈ words, t.isKeyword word = true

namespace Starts

theorem cons (h : t.isKeyword word = true) (hw : word ∈ words) (ts : List Token) :
    Starts words (t :: ts) := by
  intro u hu
  cases hu
  exact .inr ⟨word, hw, h⟩

theorem mono {words' : List String} (h : Starts words ts) (hsub : words ⊆ words') :
    Starts words' ts := fun t ht =>
  (h t ht).imp_right fun ⟨word, hw, hword⟩ => ⟨word, hsub hw, hword⟩

theorem isKeyword (h : Starts words ts)
    (hne : ∀ w ∈ words, Text.lower w.toList ≠ Text.lower word.toList) :
    ∀ t ∈ ts.head?, t.isKeyword word = false := by
  intro t ht
  rcases h t ht with hpunct | ⟨w, hw, hkeyword⟩
  · exact not_isKeyword_of_kind (by rw [kind_of_isPunct hpunct]; decide)
  · exact not_isKeyword hkeyword (hne w hw)

theorem keyword?_eq_none (h : Starts words ts)
    (hne : ∀ w ∈ words, Text.lower w.toList ≠ Text.lower word.toList) : keyword? word ts = none :=
  Grammar.keyword?_eq_none.2 (h.isKeyword hne)

theorem punct?_eq_none {c : Char} (h : Starts words ts) (hc : ';' ≠ c) : punct? c ts = none := by
  refine Grammar.punct?_eq_none.2 fun t ht => ?_
  rcases h t ht with hpunct | ⟨w, -, hkeyword⟩
  · exact not_isPunct hpunct hc
  · exact not_isPunct_of_isKeyword hkeyword

theorem settled (h : Starts words ts)
    (hw : ∀ w ∈ words, w ∈ reserved ∧ Text.lower w.toList ≠ Text.lower "AS".toList) :
    Settled ts := by
  intro t ht
  refine ⟨?_, h.isKeyword (fun w hmem => (hw w hmem).2) t ht⟩
  rcases h t ht with hpunct | ⟨w, hmem, hkeyword⟩
  · simp [isIdentifier, kind_of_isPunct hpunct]
  · exact isIdentifier_of_reserved (hw w hmem).1 hkeyword

end Starts

/-! ## Ends -/

theorem isFinished_iff : isFinished ts = true ↔ Shape.Ends ts := by
  unfold Shape.Ends
  match ts with
  | [] => simp [isFinished]
  | [t] => simp [isFinished]
  | t :: u :: ts => simp [isFinished]

theorem isFinished_of_isKeyword (h : t.isKeyword word = true) (ts : List Token) :
    isFinished (t :: ts) = false := by
  cases ts with
  | nil => exact not_isPunct_of_isKeyword h
  | cons u ts => rfl

theorem starts_of_ends (h : Shape.Ends ts) : Starts [] ts := by
  rcases h with rfl | ⟨t, rfl, ht⟩
  · simp [Starts]
  · simp [Starts, ht]

/-- Tokens that end after the clauses are those that the first clause leaves, unless it fails where
nothing could have ended. -/
theorem exists_of_afterClauses {clause : List Token → Option (List Token)}
    {clauses : List (List Token → Option (List Token))}
    (hfail : ∀ {ts}, clause ts = none → isFinished ts = false)
    (h : isFinished (afterClauses (clause :: clauses) ts) = true) :
    ∃ rest, clause ts = some rest ∧ isFinished (afterClauses clauses rest) = true := by
  unfold afterClauses at h
  cases hclause : clause ts with
  | none =>
    rw [hclause] at h
    rw [hfail hclause] at h
    cases h
  | some rest =>
    rw [hclause] at h
    exact ⟨rest, rfl, h⟩

/-! ## Sorting -/

section Sorting

variable {source : Text} {directed : Bool}

theorem sortKey_iff (source : Text) : sortKey source ts = some rest ↔ Shape.Key ts rest := by
  constructor
  · intro h
    unfold sortKey at h
    split at h
    · rename_i hnumber
      cases h
      obtain ⟨n, rfl, hn⟩ := exists_of_number? hnumber
      exact .number hn
    · obtain ⟨⟨c, us⟩, hc, rfl⟩ := Option.map_eq_some_iff.1 h
      exact .column ((columnRef_iff source).1 ⟨c, hc⟩)
  · intro h
    cases h with
    | number hn => rw [sortKey, number?_cons hn]
    | column h =>
      obtain ⟨t, us, rfl, ht⟩ := exists_cons_of_column h
      obtain ⟨c, hc⟩ := (columnRef_iff source).2 h
      have hnone : number? (t :: us) = none := by
        rw [number?_eq_none]
        rintro u ⟨⟩ hnumber
        rcases kind_of_isIdentifier ht with hkind | hkind <;> simp [hkind] at hnumber
      rw [sortKey, hnone, hc]
      rfl

theorem item_of_sortItem {u : Unit} (h : sortItem source directed ts = some (u, rest)) :
    Shape.Item directed ts rest := by
  obtain ⟨us, hkey, heq⟩ := Option.map_eq_some_iff.1 h
  have hkey := (sortKey_iff source).1 hkey
  cases heq
  cases directed with
  | false => exact .bare hkey
  | true =>
    rw [if_pos rfl]
    unfold direction
    cases hasc : keyword? "ASC" us with
    | some vs =>
      obtain ⟨d, rfl, hd⟩ := exists_of_keyword? hasc
      exact .sorted rfl hkey (.inl hd)
    | none =>
      cases hdesc : keyword? "DESC" us with
      | some vs =>
        obtain ⟨d, rfl, hd⟩ := exists_of_keyword? hdesc
        exact .sorted rfl hkey (.inr hd)
      | none => exact .bare hkey

/-- No direction stands at the head. -/
def Undirected (ts : List Token) : Prop :=
  ∀ t ∈ ts.head?, t.isKeyword "ASC" = false ∧ t.isKeyword "DESC" = false

theorem direction_of_undirected (h : Undirected ts) : direction ts = ts := by
  have hasc : keyword? "ASC" ts = none := keyword?_eq_none.2 fun t ht => (h t ht).1
  have hdesc : keyword? "DESC" ts = none := keyword?_eq_none.2 fun t ht => (h t ht).2
  rw [direction, hasc, hdesc]
  rfl

theorem direction_cons (h : t.isKeyword "ASC" = true ∨ t.isKeyword "DESC" = true)
    (ts : List Token) : direction (t :: ts) = ts := by
  rcases h with h | h
  · rw [direction, keyword?_cons h]
  · rw [direction, keyword?_cons_eq_none (not_isKeyword h (by decide)), keyword?_cons h]
    rfl

theorem exists_sortItem (h : Shape.Item directed ts rest) (hrest : Undirected rest) :
    ∃ u, sortItem source directed ts = some (u, rest) := by
  refine ⟨(), ?_⟩
  cases h with
  | bare h =>
    rw [sortItem, (sortKey_iff source).2 h]
    simp [direction_of_undirected hrest]
  | sorted hdirected h hd =>
    rw [sortItem, (sortKey_iff source).2 h]
    simp [hdirected, direction_cons hd]

theorem by_of_byClause (h : byClause source word directed ts = some rest) :
    Shape.By word directed ts rest := by
  unfold byClause at h
  split at h
  · cases h
    exact .absent ts
  · rename_i us hby
    obtain ⟨vs, hfirst, hsecond⟩ := Option.bind_eq_some_iff.1 hby
    obtain ⟨k, rfl, hk⟩ := exists_of_keyword? hfirst
    obtain ⟨b, rfl, hb⟩ := exists_of_keyword? hsecond
    exact .items hk hb (commas_of_commaList? item_of_sortItem h)

/-- A clause is read as far as it goes, in front of words that are not its own and no directions. -/
theorem byClause_of_by (h : Shape.By word directed ts rest) (hrest : Starts words rest)
    (hw : ∀ w ∈ words, ∀ v ∈ [word, "ASC", "DESC"], Text.lower w.toList ≠ Text.lower v.toList) :
    byClause source word directed ts = some rest := by
  cases h with
  | absent =>
    rw [byClause, hrest.keyword?_eq_none fun w hmem => hw w hmem word (by simp)]
    rfl
  | @items k b us rest hk hb h =>
    have hundirected : Undirected rest := fun t ht =>
      ⟨hrest.isKeyword (fun w hmem => hw w hmem "ASC" (by simp)) t ht,
        hrest.isKeyword (fun w hmem => hw w hmem "DESC" (by simp)) t ht⟩
    have hcomma : punct? ',' rest = none := hrest.punct?_eq_none (by decide)
    have hbehind : ∀ {c : Token} {vs : List Token}, c.isPunct ',' = true →
        Undirected (c :: vs) := by
      rintro c vs hc t ⟨⟩
      have hkind : c.kind ≠ .word := by
        rw [kind_of_isPunct hc]
        decide
      exact ⟨not_isKeyword_of_kind hkind, not_isKeyword_of_kind hkind⟩
    have hclause : (keyword? word (k :: b :: us)).bind (keyword? "BY") = some us := by
      rw [keyword?_cons hk]
      exact keyword?_cons hb us
    rw [byClause, hclause]
    exact commaList?_of_commas exists_sortItem hbehind h hundirected hcomma

end Sorting

/-! ## Limits -/

section Limits

variable {as bs cs ds : List Token}

theorem limit_of_limitClause (h : limitClause ts = some rest) : Shape.Limit ts rest := by
  unfold limitClause at h
  cases hlimit : keyword? "LIMIT" ts with
  | none =>
    rw [hlimit] at h
    cases h
    exact .absent ts
  | some us =>
    obtain ⟨k, rfl, hk⟩ := exists_of_keyword? hlimit
    rw [hlimit] at h
    obtain ⟨vs, hnumber, rfl⟩ := Option.map_eq_some_iff.1 h
    obtain ⟨n, rfl, hn⟩ := exists_of_number? hnumber
    cases hsecond : (punct? ',' vs <|> keyword? "OFFSET" vs).bind number? with
    | none => exact .one hk hn
    | some rest =>
      obtain ⟨ws, hseparator, hnumber⟩ := Option.bind_eq_some_iff.1 hsecond
      obtain ⟨m, rfl, hm⟩ := exists_of_number? hnumber
      rcases (Option.orElse_eq_some _ _ _).1 hseparator with hcomma | ⟨-, hoffset⟩
      · obtain ⟨s, rfl, hs⟩ := exists_of_punct? hcomma
        exact .two hk hn (.inl hs) hm
      · obtain ⟨s, rfl, hs⟩ := exists_of_keyword? hoffset
        exact .two hk hn (.inr hs) hm

theorem offset_of_offsetClause (h : offsetClause ts = some rest) : Shape.Offset ts rest := by
  unfold offsetClause at h
  split at h
  · cases h
    exact .absent ts
  · rename_i us hoffset
    obtain ⟨k, rfl, hk⟩ := exists_of_keyword? hoffset
    obtain ⟨n, rfl, hn⟩ := exists_of_number? h
    exact .rows hk hn

theorem offsetClause_of_offset (h : Shape.Offset ts rest) (hrest : Starts [] rest) :
    offsetClause ts = some rest := by
  cases h with
  | absent => rw [offsetClause, hrest.keyword?_eq_none (by simp)]
  | rows hk hn =>
    rw [offsetClause, keyword?_cons hk]
    exact number?_cons hn rest

theorem limitClause_one {k n : Token} (hk : k.isKeyword "LIMIT" = true) (hn : n.kind = .number) :
    limitClause (k :: n :: ts) =
      some (((punct? ',' ts <|> keyword? "OFFSET" ts).bind number?).getD ts) := by
  rw [limitClause, keyword?_cons hk]
  show Option.map _ (number? (n :: ts)) = _
  rw [number?_cons hn]
  rfl

theorem second_cons {s m : Token} (hs : s.isPunct ',' = true ∨ s.isKeyword "OFFSET" = true)
    (hm : m.kind = .number) :
    (punct? ',' (s :: m :: ts) <|> keyword? "OFFSET" (s :: m :: ts)).bind number? = some ts := by
  rcases hs with hs | hs
  · rw [punct?_cons hs]
    exact number?_cons hm ts
  · rw [punct?_cons_eq_none (not_isPunct_of_isKeyword hs), keyword?_cons hs]
    exact number?_cons hm ts

/-- An `OFFSET` behind a `LIMIT` may be read with either; it is gone behind both. -/
theorem exists_of_limit (hl : Shape.Limit ts us) (hf : Shape.Offset us rest)
    (hrest : Starts [] rest) :
    ∃ vs, limitClause ts = some vs ∧ offsetClause vs = some rest := by
  have hstays : offsetClause rest = some rest := offsetClause_of_offset (.absent rest) hrest
  cases hl with
  | absent =>
    have hlimit : keyword? "LIMIT" ts = none := by
      cases hf with
      | absent => exact hrest.keyword?_eq_none (by simp)
      | rows hk => exact keyword?_cons_eq_none (not_isKeyword hk (by decide)) _
    exact ⟨ts, by rw [limitClause, hlimit], offsetClause_of_offset hf hrest⟩
  | one hk hn =>
    refine ⟨rest, ?_, hstays⟩
    rw [limitClause_one hk hn]
    cases hf with
    | absent =>
      rw [hrest.punct?_eq_none (by decide), hrest.keyword?_eq_none (by simp)]
      rfl
    | rows hs hm =>
      rw [second_cons (.inr hs) hm]
      rfl
  | two hk hn hs hm =>
    refine ⟨us, ?_, offsetClause_of_offset hf hrest⟩
    rw [limitClause_one hk hn, second_cons hs hm]
    rfl

end Limits

/-! ## All that stands behind the WHERE clause -/

section Closing

variable {source : Text} {as bs cs ds : List Token}

theorem starts_of_offset (h : Shape.Offset ts rest) (hrest : Starts [] rest) :
    Starts ["OFFSET"] ts := by
  cases h with
  | absent => exact hrest.mono (by simp)
  | rows hk => exact .cons hk (by simp) _

theorem starts_of_limit (h : Shape.Limit ts rest) (hrest : Starts ["OFFSET"] rest) :
    Starts ["LIMIT", "OFFSET"] ts := by
  cases h with
  | absent => exact hrest.mono (by simp)
  | one hk => exact .cons hk (by simp) _
  | two hk => exact .cons hk (by simp) _

theorem starts_of_by {directed : Bool} (h : Shape.By word directed ts rest)
    (hrest : Starts words rest) : Starts (word :: words) ts := by
  cases h with
  | absent => exact hrest.mono (by simp)
  | items hk => exact .cons hk (by simp) _

theorem starts_of_closing (h : Shape.Closing ts) :
    Starts ["GROUP", "ORDER", "LIMIT", "OFFSET"] ts := by
  obtain ⟨hg, ho, hl, hf, hends⟩ := h
  exact starts_of_by hg (starts_of_by ho (starts_of_limit hl
    (starts_of_offset hf (starts_of_ends hends))))

theorem isFinished_of_clause_eq_none (word : String) {clause : List Token → Option (List Token)}
    (h : clause ts = none) (hword : keyword? word ts = none → clause ts = some ts) :
    isFinished ts = false := by
  cases hk : keyword? word ts with
  | none => simp [hword hk] at h
  | some us =>
    obtain ⟨k, rfl, hkeyword⟩ := exists_of_keyword? hk
    exact isFinished_of_isKeyword hkeyword us

/-- What is left behind the clauses is no more than a semicolon just if they are all that there
is. -/
theorem isFinished_tail_iff (source : Text) :
    isFinished (tail source ts) = true ↔ Shape.Closing ts := by
  constructor
  · intro h
    have hby : ∀ {word directed ts}, byClause source word directed ts = none →
        isFinished ts = false := fun {word _ _} hnone =>
      isFinished_of_clause_eq_none word hnone fun hk => by rw [byClause, hk]; rfl
    obtain ⟨as, hg, h⟩ := exists_of_afterClauses hby h
    obtain ⟨bs, ho, h⟩ := exists_of_afterClauses hby h
    have hlimit : ∀ {ts}, limitClause ts = none → isFinished ts = false := fun hnone =>
      isFinished_of_clause_eq_none "LIMIT" hnone fun hk => by rw [limitClause, hk]
    have hoffset : ∀ {ts}, offsetClause ts = none → isFinished ts = false := fun hnone =>
      isFinished_of_clause_eq_none "OFFSET" hnone fun hk => by rw [offsetClause, hk]
    obtain ⟨cs, hl, h⟩ := exists_of_afterClauses hlimit h
    obtain ⟨ds, hf, h⟩ := exists_of_afterClauses hoffset h
    exact .intro (by_of_byClause hg) (by_of_byClause ho) (limit_of_limitClause hl)
      (offset_of_offsetClause hf) (isFinished_iff.1 h)
  · rintro (@⟨as, bs, _, _, hg, ho, hl, hf, hends⟩)
    have hrest := starts_of_ends hends
    have hlimit := starts_of_limit hl (starts_of_offset hf hrest)
    obtain ⟨vs, hvs, hds⟩ := exists_of_limit hl hf hrest
    have hgroup : byClause source "GROUP" false ts = some as :=
      byClause_of_by hg (starts_of_by ho hlimit) (by decide)
    have horder : byClause source "ORDER" true as = some bs :=
      byClause_of_by ho hlimit (by decide)
    simp only [tail, afterClauses, hgroup, horder, hvs, hds]
    exact isFinished_iff.2 hends

end Closing

end TypedMirror.Grammar
