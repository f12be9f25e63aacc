import TypedMirror.Proofs.Language.Clauses
import TypedMirror.Proofs.Reading

/-!
# The spans of the WHERE clause

The clause is cut at boundaries, of which the connectors are some.  What a span is depends on what
stands behind it: a `GROUP` is a boundary only in front of a `BY`, and a semicolon only at the end.
So the tokens behind a span are carried along.

* `inside_of_span`, `span_append` — what is cut off as a span, and what is;
* `where_of_whereSpans`, `exists_whereSpans` — the clause, in front of those that sort and limit.
-/

namespace TypedMirror.Grammar

variable {t : Token} {ts us rest s : List Token} {word : String} {w : Spans}

/-! ## Connectors and boundaries -/

theorem isConnector_iff : Shape.IsConnector t ↔ (connects? t).isSome = true := by
  unfold Shape.IsConnector connects?
  cases t.isKeyword "AND" <;> cases t.isKeyword "OR" <;> cases t.isKeyword "XOR" <;> simp
  all_goals cases t.isOperator "||" <;> simp

theorem isConnector_of_connects? {c : Connector} (h : connects? t = some c) :
    Shape.IsConnector t := isConnector_iff.2 (by rw [h]; rfl)

theorem isBoundary_iff : Shape.IsBoundary t ts ↔ endsSpan t ts = true := by
  have hby : (∃ u ∈ ts.head?, u.isKeyword "BY" = true) ↔ (keyword? "BY" ts).isSome = true := by
    cases ts <;> simp [keyword?]
  unfold Shape.IsBoundary endsSpan
  rw [isConnector_iff, hby]
  simp only [Bool.or_eq_true, Bool.and_eq_true, List.any_eq_true, List.isEmpty_iff, or_assoc]

theorem not_isConnector_of_isPunct {c : Char} (h : t.isPunct c = true) : ¬ Shape.IsConnector t := by
  have hkind := kind_of_isPunct h
  simp [Shape.IsConnector, Token.isKeyword, Token.isOperator, hkind]

theorem not_isConnector_of_isKeyword (h : t.isKeyword word = true)
    (hne : ∀ v ∈ ["AND", "OR", "XOR"], Text.lower word.toList ≠ Text.lower v.toList) :
    ¬ Shape.IsConnector t := by
  have hkind := kind_of_isKeyword h
  simp [Shape.IsConnector, not_isKeyword h (hne "AND" (by simp)),
    not_isKeyword h (hne "OR" (by simp)), not_isKeyword h (hne "XOR" (by simp)),
    Token.isOperator, hkind]

/-- All words that can end a span. -/
def boundaryWords : List String :=
  ["AND", "OR", "XOR", "LIMIT", "OFFSET", "HAVING", "FOR", "INTO", "GROUP", "ORDER"]

theorem not_isBoundary_of_isKeyword (h : t.isKeyword word = true)
    (hne : ∀ v ∈ boundaryWords, Text.lower word.toList ≠ Text.lower v.toList) (ts : List Token) :
    ¬ Shape.IsBoundary t ts := by
  have hother : ∀ v ∈ boundaryWords, ¬ t.isKeyword v = true := fun v hv => by
    rw [not_isKeyword h (hne v hv)]
    decide
  rintro (hconnector | ⟨v, hv, hkeyword⟩ | ⟨hgroup | horder, -⟩ | ⟨hsemicolon, -⟩)
  · exact not_isConnector_of_isKeyword h
      (fun v hv => hne v (List.mem_append_left _ hv)) hconnector
  · have hsub : ∀ v ∈ ["LIMIT", "OFFSET", "HAVING", "FOR", "INTO"], v ∈ boundaryWords := by decide
    exact hother v (hsub v hv) hkeyword
  · exact hother "GROUP" (by decide) hgroup
  · exact hother "ORDER" (by decide) horder
  · rw [not_isPunct_of_isKeyword h] at hsemicolon
    cases hsemicolon

theorem not_isBoundary_of_isPunct {c : Char} (h : t.isPunct c = true) (hc : c ≠ ';')
    (ts : List Token) : ¬ Shape.IsBoundary t ts := by
  have hkeyword : ∀ word, ¬ t.isKeyword word = true := fun word => by
    rw [not_isKeyword_of_kind (by rw [kind_of_isPunct h]; decide)]
    decide
  rintro (hconnector | ⟨v, -, hv⟩ | ⟨hgroup | horder, -⟩ | ⟨hsemicolon, -⟩)
  · exact not_isConnector_of_isPunct h hconnector
  · exact hkeyword v hv
  · exact hkeyword _ hgroup
  · exact hkeyword _ horder
  · rw [not_isPunct h hc] at hsemicolon
    cases hsemicolon

/-! ## One span -/

/-- The tokens start with a boundary, if there are any. -/
def Stops (ts : List Token) : Prop := ∀ t us, ts = t :: us → Shape.IsBoundary t us

theorem stops_cons (h : Shape.IsBoundary t ts) : Stops (t :: ts) := by
  rintro u us ⟨⟩
  exact h

theorem inside_of_span (h : span ts = .ok (s, rest)) : ∀ a t b, s = a ++ t :: b →
    t.isKeyword "SELECT" = false ∧ ¬ Shape.IsBoundary t (b ++ rest) := by
  induction ts generalizing s with
  | nil =>
    cases h
    simp
  | cons u ts ih =>
    unfold span at h
    split at h
    · cases h
    split at h
    · cases h
      simp
    · rename_i hselect hend
      obtain ⟨⟨s, rest⟩, hs, heq⟩ := map_eq_ok.1 h
      cases heq
      intro a t b hsplit
      cases a with
      | cons v a => exact ih hs a t b (List.cons.inj hsplit).2
      | nil =>
        obtain ⟨rfl, rfl⟩ := List.cons.inj hsplit
        rw [append_of_span hs, isBoundary_iff]
        exact ⟨Bool.not_eq_true _ ▸ hselect, hend⟩

theorem stops_of_span (h : span ts = .ok (s, rest)) : Stops rest := by
  induction ts generalizing s with
  | nil =>
    cases h
    rintro t us ⟨⟩
  | cons u ts ih =>
    unfold span at h
    split at h
    · cases h
    split at h
    · rename_i hend
      cases h
      exact stops_cons (isBoundary_iff.2 hend)
    · obtain ⟨⟨s, rest⟩, hs, heq⟩ := map_eq_ok.1 h
      cases heq
      exact ih hs

theorem span_of_stops (h : Stops ts) : span ts = .ok ([], ts) := by
  cases ts with
  | nil => rfl
  | cons t ts =>
    have hboundary := h t ts rfl
    rw [span, if_neg fun hselect => not_isBoundary_of_isKeyword hselect (by decide) ts hboundary,
      if_pos (isBoundary_iff.1 hboundary)]

theorem span_append (hs : ∀ a t b, s = a ++ t :: b →
    t.isKeyword "SELECT" = false ∧ ¬ Shape.IsBoundary t (b ++ rest)) (hrest : Stops rest) :
    span (s ++ rest) = .ok (s, rest) := by
  induction s with
  | nil => exact span_of_stops hrest
  | cons t s ih =>
    obtain ⟨hselect, hboundary⟩ := hs [] t s rfl
    rw [isBoundary_iff] at hboundary
    rw [List.cons_append, span, if_neg (by rw [hselect]; decide), if_neg hboundary,
      ih fun a u b hsplit => hs (t :: a) u b (congrArg _ hsplit)]
    rfl

theorem isSpan_of_span {u : Token} (h : span ts = .ok (u :: s, rest)) :
    Shape.IsSpan (u :: s) rest := ⟨List.cons_ne_nil u s, inside_of_span h⟩

/-! ## All spans -/

/-- A connector that no span follows is left behind. -/
theorem Cuts.spans (h : Cuts ts w) (hs : Shape.IsSpan s ts)
    (hrest : ∀ t ∈ w.rest.head?, ¬ Shape.IsConnector t) : Shape.Spans (s ++ ts) w.rest := by
  induction h generalizing s with
  | stop ts => exact .last hs
  | dangling hc us => exact absurd (isConnector_of_connects? hc) (hrest _ rfl)
  | more hc hspan _ ih =>
    have htail := ih (isSpan_of_span hspan) hrest
    rw [append_of_span hspan] at htail
    exact .more hs (isConnector_of_connects? hc) htail

theorem where_of_whereSpans (h : whereSpans ts = .ok w)
    (hrest : ∀ t ∈ w.rest.head?, ¬ Shape.IsConnector t) : Shape.Where ts w.rest := by
  rcases whereSpans_eq_ok h with ⟨-, rfl⟩ | ⟨us, hwhere, rfl | ⟨u, s, vs, more, hs, hmore, rfl⟩⟩
  · exact .absent ts
  · obtain ⟨k, rfl, hk⟩ := exists_of_keyword? hwhere
    exact .empty hk
  · obtain ⟨k, rfl, hk⟩ := exists_of_keyword? hwhere
    have hspans := hmore.spans (isSpan_of_span hs) hrest
    rw [append_of_span hs] at hspans
    exact .spans hk hspans

/-- Spans are cut as they stand if something follows that ends them and does not go on with them. -/
theorem exists_of_spans (h : Shape.Spans ts rest) (hstops : Stops rest)
    (hrest : ∀ t ∈ rest.head?, ¬ Shape.IsConnector t) :
    ∃ u s us w, span ts = .ok (u :: s, us) ∧ moreSpans us = .ok w ∧ w.rest = rest := by
  induction h with
  | @last s rest hs =>
    obtain ⟨u, s, rfl⟩ := List.exists_cons_of_ne_nil hs.ne_nil
    refine ⟨u, s, rest, ⟨[], false, rest⟩, span_append hs.inside hstops, ?_, rfl⟩
    cases rest with
    | nil => rw [moreSpans]
    | cons t rest =>
      have hnone : connects? t = none := by
        simpa [isConnector_iff] using hrest t rfl
      rw [moreSpans]
      split
      · rfl
      · rename_i c hc
        rw [hnone] at hc
        cases hc
  | @more c s us rest hs hc _ ih =>
    obtain ⟨u, s, rfl⟩ := List.exists_cons_of_ne_nil hs.ne_nil
    obtain ⟨v, s', vs, w, hspan, hmore, hw⟩ := ih hstops hrest
    obtain ⟨k, hk⟩ := Option.isSome_iff_exists.1 (isConnector_iff.1 hc)
    refine ⟨u, s, c :: us, ⟨(v :: s') :: w.spans, k = .disjunction || w.usesOr, w.rest⟩,
      span_append hs.inside (stops_cons (.inl hc)), ?_, hw⟩
    rw [moreSpans]
    split
    · rename_i hnone
      rw [hk] at hnone
      cases hnone
    · rename_i k' hk'
      cases hk.symm.trans hk'
      split
      · rename_i herror
        rw [hspan] at herror
        cases herror
      · rename_i hempty
        rw [hspan] at hempty
        cases hempty
      · rename_i hspan'
        rw [hspan] at hspan'
        cases hspan'
        rw [hmore]
        rfl

theorem stops_of_closing (h : Shape.Closing ts) : Stops ts := by
  obtain ⟨hg, ho, hl, hf, hends⟩ := h
  have hword : ∀ {t : Token} {us : List Token} {word : String}, t.isKeyword word = true →
      word ∈ ["LIMIT", "OFFSET"] → Stops (t :: us) := fun h hmem =>
    stops_cons (.inr (.inl ⟨_, List.mem_append_left ["HAVING", "FOR", "INTO"] hmem, h⟩))
  cases hg with
  | items hk hb => exact stops_cons (.inr (.inr (.inl ⟨.inl hk, _, rfl, hb⟩)))
  | absent =>
  cases ho with
  | items hk hb => exact stops_cons (.inr (.inr (.inl ⟨.inr hk, _, rfl, hb⟩)))
  | absent =>
  cases hl with
  | one hk => exact hword hk (by simp)
  | two hk => exact hword hk (by simp)
  | absent =>
  cases hf with
  | rows hk => exact hword hk (by simp)
  | absent =>
    rcases hends with rfl | ⟨t, rfl, ht⟩
    · rintro t us ⟨⟩
    · exact stops_cons (.inr (.inr (.inr ⟨ht, rfl⟩)))

theorem not_isConnector_of_closing (h : Shape.Closing ts) :
    ∀ t ∈ ts.head?, ¬ Shape.IsConnector t := by
  have hne : ∀ word ∈ ["GROUP", "ORDER", "LIMIT", "OFFSET"], ∀ v ∈ ["AND", "OR", "XOR"],
      Text.lower word.toList ≠ Text.lower v.toList := by decide
  intro t ht
  rcases starts_of_closing h t ht with hpunct | ⟨word, hword, hkeyword⟩
  · exact not_isConnector_of_isPunct hpunct
  · exact not_isConnector_of_isKeyword hkeyword (hne word hword)

theorem exists_whereSpans (h : Shape.Where ts rest) (hrest : Shape.Closing rest) :
    ∃ w, whereSpans ts = .ok w ∧ w.rest = rest := by
  have hstops := stops_of_closing hrest
  cases h with
  | absent =>
    have hwhere : keyword? "WHERE" ts = none :=
      (starts_of_closing hrest).keyword?_eq_none (by decide)
    exact ⟨⟨[], false, ts⟩, by rw [whereSpans, hwhere], rfl⟩
  | empty hk =>
    refine ⟨⟨[], false, rest⟩, ?_, rfl⟩
    simp only [whereSpans, keyword?_cons hk, span_of_stops hstops]
  | spans hk h =>
    obtain ⟨u, s, us, w, hspan, hmore, hw⟩ :=
      exists_of_spans h hstops (not_isConnector_of_closing hrest)
    refine ⟨⟨(u :: s) :: w.spans, w.usesOr, w.rest⟩, ?_, hw⟩
    simp only [whereSpans, keyword?_cons hk, hspan, hmore]
    rfl

end TypedMirror.Grammar
