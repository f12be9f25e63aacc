import TypedMirror.Proofs.Language.Spans
import TypedMirror.Proofs.Stepwise.Tables

/-!
# The WHERE clause along the tokens

A span is read as a predicate in front of all the tokens that follow it.  An operator never goes on
behind the end of its span, and a column that does so is given up.

* `operator_append`, `columnRef_append` — the predicate of a span with other tokens behind it;
* `runs_whereSpan` — a span, whose predicate is written down;
* `gives_whereClause` — the clause.
-/

namespace TypedMirror.Stepwise

open Grammar (keyword? punct? operator? connects? span moreSpans whereSpans predicate?
  predicatesFrom Stops)
open Query (columnEdit)

variable {source : Text} {c : Cursor} {s ts us vs rest : List Token}

/-! ## In front of the end of a span -/

theorem Tests.append {read : List Token → Option (List Token)} {sort : Token → Bool}
    (h : Tests read sort) (hrest : read rest = none) (us : List Token) :
    read (us ++ rest) = (read us).map (· ++ rest) := by
  cases us with
  | nil => rw [List.nil_append, hrest, h.nil, Option.map_none]
  | cons t us =>
    rw [List.cons_append, h.cons, h.cons]
    split
    · rfl
    · rfl

theorem keyword?_of_stops {word : String} (h : Stops rest)
    (hne : ∀ v ∈ Grammar.boundaryWords, Text.lower word.toList ≠ Text.lower v.toList) :
    keyword? word rest = none := by
  cases hword : keyword? word rest with
  | none => rfl
  | some us =>
    obtain ⟨t, rfl, ht⟩ := (tests_keyword? word).takes hword
    exact absurd (h t us rfl) (Grammar.not_isBoundary_of_isKeyword ht hne us)

theorem punct?_of_stops {p : Char} (h : Stops rest) (hp : p ≠ ';') : punct? p rest = none := by
  cases hpunct : punct? p rest with
  | none => rfl
  | some us =>
    obtain ⟨t, rfl, ht⟩ := (tests_punct? p).takes hpunct
    exact absurd (h t us rfl) (Grammar.not_isBoundary_of_isPunct ht hp us)

theorem ofSymbol?_of_isBoundary {t : Token} (h : Shape.IsBoundary t ts)
    (hkind : t.kind = .operator) : Operator.ofSymbol? t.text = none := by
  have hword : ∀ word, ¬ t.isKeyword word = true := fun word => by
    rw [Grammar.not_isKeyword_of_kind (by rw [hkind]; decide)]
    decide
  have hpunct : ¬ t.isPunct ';' = true := by
    rw [Grammar.not_isPunct_of_kind (by rw [hkind]; decide)]
    decide
  have htext : ∀ {symbol : String}, t.isOperator symbol = true → t.text = symbol.toList := by
    intro symbol hsymbol
    rw [Token.isOperator, Bool.and_eq_true] at hsymbol
    exact eq_of_beq hsymbol.2
  rcases h with hconnector | ⟨v, -, hv⟩ | ⟨hgroup | horder, -⟩ | ⟨hsemicolon, -⟩
  · rw [Grammar.isConnector_iff] at hconnector
    unfold connects? at hconnector
    split at hconnector
    · rename_i hor
      simp only [Bool.or_eq_true, hword, Bool.false_eq_true, false_or] at hor
      rw [htext hor]
      decide
    · split at hconnector
      · rename_i hand
        simp only [Bool.or_eq_true, hword, Bool.false_eq_true, false_or] at hand
        rw [htext hand]
        decide
      · cases hconnector
  · exact absurd hv (hword v)
  · exact absurd hgroup (hword _)
  · exact absurd horder (hword _)
  · exact absurd hsemicolon hpunct

theorem operator_of_stops (h : Stops rest) : Grammar.operator true rest = none := by
  cases rest with
  | nil => rfl
  | cons t us =>
    have hword : ∀ word ∈ ["LIKE", "IS", "NOT", "IN"], t.isKeyword word = false := by
      intro word hword
      have hne : ∀ word ∈ ["LIKE", "IS", "NOT", "IN"], ∀ v ∈ Grammar.boundaryWords,
          Text.lower word.toList ≠ Text.lower v.toList := by decide
      rw [← Bool.not_eq_true]
      intro ht
      exact Grammar.not_isBoundary_of_isKeyword ht (hne word hword) us (h t us rfl)
    rw [Grammar.operator]
    by_cases hkind : t.kind = .operator
    · rw [if_pos hkind, ofSymbol?_of_isBoundary (h t us rfl) hkind]
      rfl
    · simp [hkind, hword]

/-- The operator of a span is read from the span alone. -/
theorem operator_append (h : Stops rest) (us : List Token) : Grammar.operator true (us ++ rest) =
    (Grammar.operator true us).map fun r => (r.1, r.2 ++ rest) := by
  have hkeyword : ∀ {word : String}, (∀ v ∈ Grammar.boundaryWords,
      Text.lower word.toList ≠ Text.lower v.toList) → ∀ us,
        keyword? word (us ++ rest) = (keyword? word us).map (· ++ rest) := fun hne us =>
    (tests_keyword? _).append (keyword?_of_stops h hne) us
  have hopens : ∀ us, Grammar.opensList (us ++ rest) = Grammar.opensList us := by
    intro us
    unfold Grammar.opensList
    rw [(tests_punct? '(').append (punct?_of_stops h (by decide)) us, Option.isSome_map]
  cases us with
  | nil => exact operator_of_stops h
  | cons t us =>
    rw [List.cons_append, Grammar.operator, Grammar.operator]
    by_cases hkind : t.kind = .operator
    · rw [if_pos hkind, if_pos hkind, Option.map_map]
      rfl
    rw [if_neg hkind, if_neg hkind]
    by_cases hlike : t.isKeyword "LIKE" = true
    · rw [if_pos hlike, if_pos hlike]
      rfl
    rw [if_neg hlike, if_neg hlike]
    by_cases his : t.isKeyword "IS" = true
    · rw [if_pos his, if_pos his, hkeyword (by decide)]
      cases keyword? "NOT" us with
      | none => rfl
      | some vs => rfl
    rw [if_neg his, if_neg his]
    by_cases hnot : t.isKeyword "NOT" = true
    · rw [if_pos hnot, if_pos hnot, hkeyword (by decide), hkeyword (by decide)]
      cases keyword? "LIKE" us with
      | some vs => rfl
      | none =>
        cases keyword? "IN" us with
        | none => rfl
        | some vs =>
          simp only [Option.map_none, Option.map_some, hopens]
          split
          · rfl
          · rfl
    rw [if_neg hnot, if_neg hnot, hopens]
    split
    · rfl
    · rfl

/-- A column in a span is read with other tokens behind the span. -/
theorem columnRef_append {x : ColumnRef} (h : Stops rest)
    (hx : Grammar.columnRef source s = some (x, us)) :
    Grammar.columnRef source (s ++ rest) = some (x, us ++ rest) := by
  cases s with
  | nil => cases hx
  | cons t s =>
    rw [Grammar.columnRef] at hx
    rw [List.cons_append, Grammar.columnRef,
      (tests_punct? '.').append (punct?_of_stops h (by decide)) s]
    split at hx
    · rename_i hid
      rw [if_pos hid]
      split at hx
      · rename_i hdot
        cases hx
        rw [hdot]
        rfl
      · rename_i n vs hdot
        split at hx
        · rename_i hn
          cases hx
          rw [hdot]
          exact if_pos hn
        · cases hx
      · cases hx
    · cases hx

/-- Where a span does not start with a column, what is read as one goes on behind the span. -/
theorem length_lt_of_columnRef_append {x : ColumnRef} (h : Stops rest)
    (hnone : Grammar.columnRef source s = none)
    (hx : Grammar.columnRef source (s ++ rest) = some (x, us)) : us.length < rest.length := by
  cases s with
  | nil => exact (Grammar.advances_of_columnRef source hx).2
  | cons t s =>
    rw [Grammar.columnRef] at hnone
    rw [List.cons_append, Grammar.columnRef,
      (tests_punct? '.').append (punct?_of_stops h (by decide)) s] at hx
    split at hx
    · rename_i hid
      rw [if_pos hid] at hnone
      cases hdot : punct? '.' s with
      | none =>
        rw [hdot] at hnone
        cases hnone
      | some vs =>
        rw [hdot] at hnone hx
        cases vs with
        | nil =>
          -- the name behind the dot is behind the span
          rw [Option.map_some, List.nil_append] at hx
          cases rest with
          | nil => cases hx
          | cons n ws =>
            dsimp only at hx
            split at hx
            · cases hx
              exact Nat.lt_succ_self _
            · cases hx
        | cons n vs =>
          rw [Option.map_some, List.cons_append] at hx
          dsimp only at hx hnone
          split at hx
          · rename_i hn
            rw [if_pos hn] at hnone
            cases hnone
          · cases hx
    · cases hx

/-- A predicate of which no token is among those of `rest`, and the tokens after its operator. -/
def predicateBefore (source : Text) (rest ts : List Token) : Option (Predicate × List Token) :=
  (Grammar.columnRef source ts).bind fun p => (Grammar.operator true p.2).bind fun q =>
    if rest.length ≤ q.2.length then
      some (⟨p.1, q.1, Grammar.operand source q.1 (q.2.take (q.2.length - rest.length))⟩, q.2)
    else none

/-- The predicate of a span, read in front of all the tokens behind it. -/
theorem predicateBefore_append (h : Stops rest) (s : List Token) :
    (predicateBefore source rest (s ++ rest)).map (·.1) = predicate? source s := by
  unfold predicateBefore predicate?
  cases hs : Grammar.columnRef source s with
  | none =>
    cases hx : Grammar.columnRef source (s ++ rest) with
    | none => rfl
    | some p =>
      have hlt := length_lt_of_columnRef_append h hs hx
      rw [Option.bind_some]
      cases hop : Grammar.operator true p.2 with
      | none => rfl
      | some q =>
        have := (Grammar.advances_of_operator hop).2
        rw [Option.bind_some, if_neg (by omega)]
        rfl
  | some p =>
    rw [columnRef_append h hs, Option.bind_some]
    dsimp only
    rw [operator_append h]
    show _ = (Grammar.operator true p.2).bind _
    cases Grammar.operator true p.2 with
    | none => rfl
    | some q =>
      have hlength : (q.2 ++ rest).length - rest.length = q.2.length := by
        rw [List.length_append, Nat.add_sub_cancel]
      have hle : rest.length ≤ (q.2 ++ rest).length := by
        rw [List.length_append]
        exact Nat.le_add_left _ _
      rw [Option.map_some, Option.bind_some, Option.bind_some]
      dsimp only
      rw [if_pos hle, hlength, List.take_left, Option.map_some]

theorem suffix_of_predicateBefore {p : Predicate} (hrest : rest <:+ ts)
    (h : predicateBefore source rest ts = some (p, us)) : rest <:+ us ∧ us <:+ ts := by
  obtain ⟨⟨x, vs⟩, hx, h⟩ := Option.bind_eq_some_iff.1 h
  obtain ⟨⟨o, ws⟩, hop, h⟩ := Option.bind_eq_some_iff.1 h
  have hws := (Grammar.advances_of_operator hop).1.trans (Grammar.advances_of_columnRef source hx).1
  split at h
  · rename_i hle
    cases h
    exact ⟨List.suffix_of_suffix_length_le hrest hws hle, hws⟩
  · cases h

/-! ## One span -/

/-- With predicates written down, and with or without having met a disjunction. -/
def withClause (ps : List Predicate) (met : Bool) (c : Cursor) : Cursor :=
  { c with
    edits := c.edits ++ ps.map (columnEdit ·.column)
    predicates := c.predicates ++ ps
    usesOr := c.usesOr || met }

theorem withClause_nil (c : Cursor) : withClause [] false c = c := by
  simp [withClause]

theorem withClause_withClause (ps qs : List Predicate) (met met' : Bool) (c : Cursor) :
    withClause qs met' (withClause ps met c) = withClause (ps ++ qs) (met || met') c := by
  simp [withClause, Bool.or_assoc]

theorem withClause_eq (c : Cursor) (p : Predicate) :
    c.withPredicate p.column.position (p.column.position + p.column.raw.length) p =
      withClause [p] false c := by
  simp [withClause, Cursor.withPredicate, columnEdit]

theorem runs_withPredicate (p : Predicate) (c : Cursor) : Runs source (change
    (·.withPredicate p.column.position (p.column.position + p.column.raw.length) p)) c (.ok ())
      (withClause [p] false c) := by
  rw [← withClause_eq]
  exact .change source _ c

theorem Cursor.At.met (hc : c.At source ts) (met : Bool) : (withClause [] met c).At source ts := by
  refine ⟨⟨hc.sound.position_le, ?_, ?_⟩, hc.rest⟩
  · show c.edits ++ [] = c.tables.map Query.tableEdit ++ (c.predicates ++ []).map _
    rw [List.append_nil, List.append_nil]
    exact hc.sound.edits
  · show Placed source (c.rest source) (c.edits ++ [])
    rw [List.append_nil]
    exact hc.sound.placed

theorem rewind_met (source : Text) (us : List Token) (met : Bool) (c : Cursor) :
    (withClause [] met (c.upTo source us)).rewind c.mark = withClause [] met c := by
  simp [withClause, Cursor.rewind, Cursor.mark, Cursor.upTo]

theorem Cursor.At.suffix (hc : c.At source ts) : ts <:+ Token.read source := by
  rw [← hc.rest]
  exact Cursor.rest_suffix source c

theorem Cursor.At.position_eq (hc : c.At source ts) :
    c.position = (Token.read source).length - ts.length := congrArg Cursor.position hc.upTo_self.symm

theorem runs_tokens (hvs : vs <:+ Token.read source) (rest : List Token) (c : Cursor) :
    Runs source (tokens ((Token.read source).length - vs.length)
      ((Token.read source).length - rest.length)) c (.ok (vs.take (vs.length - rest.length))) c := by
  have hlength := hvs.length_le
  have hdrop : (Token.read source).drop ((Token.read source).length - vs.length) = vs :=
    (List.suffix_iff_eq_drop.1 hvs).symm
  have htake : (Token.read source).length - rest.length - ((Token.read source).length - vs.length) =
      vs.length - rest.length := by omega
  have heq : ((Token.read source).drop ((Token.read source).length - vs.length)).take
      ((Token.read source).length - rest.length - ((Token.read source).length - vs.length)) =
        vs.take (vs.length - rest.length) := by rw [hdrop, htake]
  rw [← heq]
  exact (Runs.sourceText source c).bind (.pure source _ c)

/-- The cursor has moved, and nothing has been written down. -/
def Moved (source : Text) (ts : List Token) (c c' : Cursor) : Prop :=
  ∃ us, us <:+ ts ∧ c' = c.upTo source us

/-- A predicate is written down once its operator has been read. -/
theorem reads_whereSpan (hc : c.At source ts) (hrest : rest <:+ ts) :
    Reads source (whereSpan c.position ((Token.read source).length - rest.length)) c
      (predicateBefore source rest ts) (fun p => withClause [p] false) (Moved source ts c) := by
  refine Reads.call hc.sound ?_ (Reads.stay (.change source _ c) ?_)
  · rintro _ ⟨us, hus, rfl⟩
    exact Call.good_of_free rfl hc.sound (hc.upTo hus).sound false
  have hstay : Moved source ts c c := ⟨ts, List.suffix_refl ts, hc.upTo_self.symm⟩
  unfold predicateBefore
  have hcolumn := reads_columnRef hc
  cases hx : Grammar.columnRef source ts with
  | none =>
    obtain ⟨_, rfl, hcolumn⟩ := hcolumn.of_none (by rw [hx]; rfl)
    exact ⟨_, hstay, hcolumn.bind_error⟩
  | some r =>
    obtain ⟨x, us⟩ := r
    obtain ⟨done, rfl, hcovers⟩ := Grammar.covers_of_columnRef hx
    have hus := List.suffix_append done us
    have hc₁ := hc.upTo hus
    obtain ⟨hcolumn, -⟩ := hcolumn.of_some (by rw [hx]; rfl)
    refine Reads.bind hcolumn ?_
    refine Reads.andThen hc₁ (reads_operator true hc₁) (by rintro _ rfl; exact ⟨us, hus, rfl⟩)
      (fun h => (Grammar.advances_of_operator h).1) fun {o vs} hvs hc₂ => ?_
    have hlength := hc₂.suffix.length_le
    have hlength' := hrest.length_le.trans hc.suffix.length_le
    refine Reads.stay (.current source _) ?_
    dsimp only
    by_cases hle : rest.length ≤ vs.length
    · rw [if_pos hle]
      have hgt : ¬ (Token.read source).length - vs.length >
          (Token.read source).length - rest.length := by omega
      refine Reads.ite_neg hgt (Reads.stay (.sourceText source _)
        (Reads.stay (runs_tokens hc₂.suffix rest _) ?_))
      refine ⟨(runs_withPredicate ⟨x, o, _⟩ _).bind (.pure source _ _), ?_⟩
      have hsound := hc.withPredicate (p := ⟨x, o, Grammar.operand source o
        (vs.take (vs.length - rest.length))⟩) hcovers rfl hvs
      rw [withClause_eq] at hsound
      exact hsound
    · -- the column goes on behind the span
      rw [if_neg hle]
      have hgt : (Token.read source).length - vs.length >
          (Token.read source).length - rest.length := by omega
      exact ⟨_, ⟨vs, hvs.trans hus, rfl⟩, .ite_pos hgt (.refuse source _)⟩

/-- The predicate of a span is written down, and nothing else is. -/
theorem runs_predicate (hc : c.At source (s ++ rest)) (h : Stops rest) : ∃ c',
    Runs source (quietly (whereSpan c.position ((Token.read source).length - rest.length))) c
        (.ok ()) c' ∧
      c'.upTo source rest = withClause (predicate? source s).toList false (c.upTo source rest) ∧
      (c'.upTo source rest).At source rest := by
  have hrest := List.suffix_append s rest
  have hreads := reads_whereSpan hc hrest
  rw [← predicateBefore_append h]
  cases hp : predicateBefore source rest (s ++ rest) with
  | none =>
    obtain ⟨_, ⟨us, -, rfl⟩, hruns⟩ := hreads.of_none hp
    exact ⟨_, hruns.quietly (by simp), (withClause_nil _).symm, hc.upTo hrest⟩
  | some r =>
    obtain ⟨p, us⟩ := r
    obtain ⟨hruns, hsound⟩ := hreads.of_some hp
    obtain ⟨hrest', hus⟩ := suffix_of_predicateBefore hrest hp
    have hat : (withClause [p] false (c.upTo source us)).At source us := ⟨hsound, (hc.upTo hus).rest⟩
    exact ⟨_, hruns.quietly (by simp), rfl, hat.upTo hrest'⟩

/-! ## The spans of a clause -/

section NextSpan

variable {first : Bool} (depth : Int) {c' : Cursor}

theorem runs_spanEnd (hc : c.At source us) (h : span us = .ok (s, rest)) :
    Runs source spanEnd c (.ok ((Token.read source).length - rest.length)) c := by
  have hlength := hc.suffix.length_le
  have hposition := hc.position_eq
  have happend := congrArg List.length (Grammar.append_of_span h)
  rw [List.length_append] at happend
  have hstop : c.position + s.length = (Token.read source).length - rest.length := by omega
  refine Runs.call ((Runs.current source c).bind ((Runs.sourceText source c).bind ?_))
    (Call.good_of_eq _ hc.sound _)
  rw [hc.rest, h, ← hstop]
  exact .pure source _ c

theorem runs_spanEnd_error {u : Unsupported} (hc : c.At source us) (h : span us = .error u) :
    Runs source spanEnd c (.error (.unsupported u)) c := by
  refine Runs.call ((Runs.current source c).bind ((Runs.sourceText source c).bind ?_))
    (Call.good_of_eq _ hc.sound _)
  rw [hc.rest, h]
  exact .unsupported source u c

theorem nextSpan_error {u : Unsupported} (hfirst : Runs source (connector first) c (.ok true) c')
    (hc' : c'.At source us) (h : span us = .error u) :
    Runs source (nextSpan (first, depth)) c (.error (.unsupported u)) c' :=
  (Runs.current source c).bind (hfirst.bind (.ite_pos rfl
    ((Runs.current source c').bind (runs_spanEnd_error hc' h).bind_error)))

/-- A connector without a span behind it is left alone. -/
theorem nextSpan_none (hfirst : Runs source (connector first) c (.ok true) c')
    (hc' : c'.At source us) (h : span us = .ok ([], rest)) :
    Runs source (nextSpan (first, depth)) c (.ok none) (c'.rewind c.mark) := by
  have hus : rest = us := Grammar.append_of_span h
  have hstop : (Token.read source).length - rest.length = c'.position := by
    rw [hc'.position_eq, hus]
  refine (Runs.current source c).bind (hfirst.bind (.ite_pos rfl ?_))
  refine (Runs.current source c').bind ((runs_spanEnd hc' h).bind (.ite_pos hstop ?_))
  exact (Runs.change source (·.rewind c.mark) c').bind (.pure source none _)

theorem nextSpan_some (hfirst : Runs source (connector first) c (.ok true) c')
    (hc' : c'.At source us) (h : span us = .ok (s, rest)) (hs : s ≠ []) :
    Runs source (nextSpan (first, depth)) c (.ok (some (false, depth + Grammar.balance s)))
        (withClause (if depth = 0 then (predicate? source s).toList else []) false
          (c'.upTo source rest)) ∧
      (withClause (if depth = 0 then (predicate? source s).toList else []) false
        (c'.upTo source rest)).At source rest := by
  obtain rfl := Grammar.append_of_span h
  have hlength := hc'.suffix.length_le
  have hposition := hc'.position_eq
  have hpos := List.length_pos_iff.2 hs
  rw [List.length_append] at hlength hposition
  have hne : ¬ (Token.read source).length - rest.length = c'.position := by omega
  have htokens : ∀ c, Runs source (tokens c'.position ((Token.read source).length - rest.length)) c
      (.ok s) c := by
    intro c
    have := runs_tokens hc'.suffix rest c
    rw [← hc'.position_eq, List.length_append, Nat.add_sub_cancel, List.take_left] at this
    exact this
  have hbody : ∀ {c''}, Runs source (doWhen (depth = 0) (quietly (whereSpan c'.position
      ((Token.read source).length - rest.length)))) c' (.ok ()) c'' →
        Runs source (nextSpan (first, depth)) c (.ok (some (false, depth + Grammar.balance s)))
          (c''.upTo source rest) := by
    intro c'' hspan
    refine (Runs.current source c).bind (hfirst.bind (.ite_pos rfl ?_))
    refine (Runs.current source c').bind ((runs_spanEnd hc' h).bind (.ite_neg hne ?_))
    exact hspan.bind ((htokens c'').bind ((Runs.change source _ c'').bind (.pure source _ _)))
  by_cases hdepth : depth = 0
  · obtain ⟨c'', hspan, heq, hat⟩ := runs_predicate hc' (Grammar.stops_of_span h)
    rw [if_pos hdepth, ← heq]
    refine ⟨hbody ?_, hat⟩
    rw [decide_eq_true hdepth]
    exact hspan
  · rw [if_neg hdepth, withClause_nil]
    refine ⟨hbody ?_, hc'.upTo (List.suffix_append s rest)⟩
    rw [decide_eq_false hdepth]
    exact .pure source () c'

end NextSpan

/-! ## The clause -/

section Connectors

variable {t : Token} {d : Grammar.Connector}

/-- The tokens after a disjunction. -/
def disjunction? (ts : List Token) : Option (List Token) :=
  keyword? "OR" ts <|> keyword? "XOR" ts <|> operator? "||" ts

/-- The tokens after a conjunction. -/
def conjunction? (ts : List Token) : Option (List Token) := keyword? "AND" ts <|> operator? "&&" ts

theorem runs_acceptDisjunction (hc : c.At source ts) : Runs source acceptDisjunction c
    (.ok (disjunction? ts).isSome) (c.upTo source ((disjunction? ts).getD ts)) :=
  runs_acceptEither hc (tests_keyword? "OR") (runs_acceptEither hc (tests_keyword? "XOR")
    (runs_accept hc (tests_operator? "||")))

theorem runs_acceptConjunction (hc : c.At source ts) : Runs source acceptConjunction c
    (.ok (conjunction? ts).isSome) (c.upTo source ((conjunction? ts).getD ts)) :=
  runs_acceptEither hc (tests_keyword? "AND") (runs_accept hc (tests_operator? "&&"))

theorem disjunction?_cons (t : Token) (us : List Token) : disjunction? (t :: us) =
    if connects? t = some .disjunction then some us else none := by
  unfold disjunction? connects?
  rw [(tests_keyword? "OR").cons, (tests_keyword? "XOR").cons, (tests_operator? "||").cons]
  by_cases hor : t.isKeyword "OR" = true
  · simp [hor]
  by_cases hxor : t.isKeyword "XOR" = true
  · simp [hor, hxor]
  by_cases hsymbol : t.isOperator "||" = true
  · simp [hor, hxor, hsymbol]
  · simp [hor, hxor, hsymbol]

theorem conjunction?_cons (h : connects? t ≠ some .disjunction) (us : List Token) :
    conjunction? (t :: us) = if connects? t = some .conjunction then some us else none := by
  have hor : ¬ (t.isKeyword "OR" || t.isKeyword "XOR" || t.isOperator "||") = true := by
    intro hor
    exact h (if_pos hor)
  unfold conjunction? connects?
  rw [if_neg hor, (tests_keyword? "AND").cons, (tests_operator? "&&").cons]
  by_cases hand : t.isKeyword "AND" = true
  · simp [hand]
  by_cases hsymbol : t.isOperator "&&" = true
  · simp [hand, hsymbol]
  · simp [hand, hsymbol]

theorem runs_connector (hc : c.At source (t :: us)) (h : connects? t = some d) :
    Runs source (connector false) c (.ok true)
      (withClause [] (d = .disjunction) (c.upTo source us)) := by
  have hdisjunction := runs_acceptDisjunction hc
  rw [disjunction?_cons, h] at hdisjunction
  cases d with
  | disjunction =>
    refine hdisjunction.bind (.ite_pos rfl ?_)
    have hmet : withClause [] true (c.upTo source us) =
        { c.upTo source us with usesOr := true } := by simp [withClause]
    rw [decide_eq_true rfl, hmet]
    exact (Runs.change source _ _).bind (.pure source true _)
  | conjunction =>
    have hconjunction := runs_acceptConjunction hc
    rw [conjunction?_cons (by rw [h]; decide), h] at hconjunction
    rw [if_neg (by decide), Option.getD_none, hc.upTo_self] at hdisjunction
    rw [decide_eq_false (by decide), withClause_nil]
    exact hdisjunction.bind (.ite_neg (by simp) hconjunction)

theorem runs_connector_none (hc : c.At source ts) (h : ∀ t ∈ ts.head?, connects? t = none) :
    Runs source (connector false) c (.ok false) c := by
  have hdisjunction := runs_acceptDisjunction hc
  have hconjunction := runs_acceptConjunction hc
  have hnone : disjunction? ts = none ∧ conjunction? ts = none := by
    cases ts with
    | nil => exact ⟨rfl, rfl⟩
    | cons t us =>
      have ht := h t rfl
      rw [disjunction?_cons, conjunction?_cons (by rw [ht]; decide), ht]
      exact ⟨rfl, rfl⟩
  rw [hnone.1, Option.getD_none, hc.upTo_self] at hdisjunction
  rw [hnone.2, Option.getD_none, hc.upTo_self] at hconjunction
  exact hdisjunction.bind (.ite_neg (by simp) hconjunction)

end Connectors

/-- The step goes to a cursor in front of some tokens, unless the query can not be read. -/
def Gives (source : Text) (p : Step Unit) (c : Cursor)
    (g : Except Unsupported (Cursor × List Token)) : Prop :=
  match g with
  | .ok (c', us) => Runs source p c (.ok ()) c' ∧ c'.At source us
  | .error u => ∃ c', Runs source p c (.error (.unsupported u)) c' ∧ c'.Sound source

theorem Gives.bind {α : Type} {p : Step α} {f : α → Step Unit} {a : α} {c' : Cursor}
    {g : Except Unsupported (Cursor × List Token)} (hp : Runs source p c (.ok a) c')
    (h : Gives source (f a) c' g) : Gives source (p >>= f) c g := by
  cases g with
  | error u =>
    obtain ⟨c'', hruns, hsound⟩ := h
    exact ⟨c'', hp.bind hruns, hsound⟩
  | ok r => exact ⟨hp.bind h.1, h.2⟩

theorem Gives.call {rule : Rule} {p : Step Unit} {g : Except Unsupported (Cursor × List Token)}
    (hrule : rule.restores = false) (hc : c.At source ts) (h : Gives source p c g) :
    Gives source (call rule p) c g := by
  cases g with
  | error u =>
    obtain ⟨c', hruns, hsound⟩ := h
    exact ⟨c', hruns.call (Call.good_of_free hrule hc.sound hsound _), hsound⟩
  | ok r => exact ⟨h.1.call (Call.good_of_free hrule hc.sound h.2.sound _), h.2⟩

/-- A round of a loop before the others. -/
theorem Gives.loop_more {σ : Type} {body : σ → Step (Option σ)} {x y : σ} {c' : Cursor}
    {g : Except Unsupported (Cursor × List Token)} (hc : c.At source ts) (hc' : c'.At source us)
    (hless : us.length < ts.length) (hbody : Runs source (body x) c (.ok (some y)) c')
    (h : Gives source (loop body y) c' g) : Gives source (loop body x) c g := by
  rw [← hc.rest, ← hc'.rest] at hless
  cases g with
  | error u =>
    obtain ⟨c'', hruns, hsound⟩ := h
    exact ⟨c'', hbody.loop_more hless hruns, hsound⟩
  | ok r => exact ⟨hbody.loop_more hless h.1, h.2⟩

/-- What the spans of a clause make of a cursor, and the tokens behind them. -/
def written (source : Text) (depth : Int) (c : Cursor) (w : Grammar.Spans) : Cursor × List Token :=
  (withClause (predicatesFrom source depth w.spans) w.usesOr (c.upTo source w.rest), w.rest)

theorem gives_noSpan (hc : c.At source ts) (depth : Int)
    (h : ∀ t ∈ ts.head?, connects? t = none) :
    Gives source (loop nextSpan (false, depth)) c (.ok (written source depth c ⟨[], false, ts⟩)) := by
  show Runs source _ c (.ok ()) (withClause [] false (c.upTo source ts)) ∧
    (withClause [] false (c.upTo source ts)).At source ts
  rw [withClause_nil, hc.upTo_self]
  refine ⟨Runs.loop_stop ((Runs.current source c).bind ?_), hc⟩
  exact (runs_connector_none hc h).bind (.ite_neg (by simp) (.pure source none c))

/-- A span and those behind it. -/
theorem gives_span {first met : Bool} (depth : Int) (hc : c.At source ts) (hus : us <:+ ts)
    (hfirst : Runs source (connector first) c (.ok true) (withClause [] met (c.upTo source us)))
    (hs : span us = .ok (s, rest)) (hne : s ≠ [])
    (hmore : ∀ {c}, c.At source rest → ∀ depth, Gives source (loop nextSpan (false, depth)) c
      ((moreSpans rest).map (written source depth c))) :
    Gives source (loop nextSpan (first, depth)) c ((moreSpans rest).map fun w =>
      written source depth c ⟨s :: w.spans, met || w.usesOr, w.rest⟩) := by
  have hc₁ := (hc.upTo hus).met met
  obtain ⟨hspan, hc₂⟩ := nextSpan_some depth hfirst hc₁ hs hne
  have hless : rest.length < ts.length := by
    have happend := congrArg List.length (Grammar.append_of_span hs)
    have hle := hus.length_le
    have hpos := List.length_pos_iff.2 hne
    rw [List.length_append] at happend
    omega
  refine Gives.loop_more hc hc₂ hless hspan ?_
  have hmore := hmore hc₂ (depth + Grammar.balance s)
  cases hw : moreSpans rest with
  | error e =>
    rw [hw] at hmore
    exact hmore
  | ok w =>
    have heq : written source depth c ⟨s :: w.spans, met || w.usesOr, w.rest⟩ =
        written source (depth + Grammar.balance s)
          (withClause (if depth = 0 then (predicate? source s).toList else []) false
            ((withClause [] met (c.upTo source us)).upTo source rest)) w := by
      show _ = (withClause _ _ (withClause _ _ (withClause _ _ (c.upTo source w.rest))), w.rest)
      rw [withClause_withClause, withClause_withClause]
      simp [written, predicatesFrom]
    rw [hw] at hmore
    have hmore : Gives source _ _ (.ok (written source _ _ w)) := hmore
    rw [← heq] at hmore
    exact hmore

theorem gives_moreSpans (hc : c.At source ts) (depth : Int) :
    Gives source (loop nextSpan (false, depth)) c ((moreSpans ts).map (written source depth c)) := by
  fun_induction moreSpans ts generalizing c depth with
  | case1 => exact gives_noSpan hc depth (by rintro t ⟨⟩)
  | case2 t us h => exact gives_noSpan hc depth (by rintro _ ⟨⟩; exact h)
  | case3 t us d h u hs =>
    have hc₁ := (hc.upTo (List.suffix_cons t us)).met (d = .disjunction)
    exact ⟨_, Runs.loop_error (nextSpan_error depth (runs_connector hc h) hc₁ hs), hc₁.sound⟩
  | case4 t us d h rest hs =>
    have hc₁ := (hc.upTo (List.suffix_cons t us)).met (d = .disjunction)
    have hspan := nextSpan_none depth (runs_connector hc h) hc₁ hs
    rw [rewind_met] at hspan
    show Runs source _ c (.ok ()) (withClause [] (d = .disjunction) (c.upTo source (t :: us))) ∧
      (withClause [] (d = .disjunction) (c.upTo source (t :: us))).At source (t :: us)
    rw [hc.upTo_self]
    exact ⟨Runs.loop_stop hspan, hc.met _⟩
  | case5 t us d h u s rest hs hle ih =>
    have hspans := gives_span depth hc (List.suffix_cons t us) (runs_connector hc h) hs
      (by simp) fun hc depth => ih hc depth
    cases hw : moreSpans rest with
    | error e =>
      rw [hw] at hspans
      exact hspans
    | ok w =>
      rw [hw] at hspans
      exact hspans

theorem gives_whereClause (hc : c.At source ts) :
    Gives source whereClause c ((whereSpans ts).map (written source 0 c)) := by
  refine Gives.call rfl hc (Gives.bind (runs_accept hc (tests_keyword? "WHERE")) ?_)
  unfold whereSpans
  cases hwhere : keyword? "WHERE" ts with
  | none =>
    show Gives source (pure ()) (c.upTo source ts) (.ok (withClause [] false (c.upTo source ts), ts))
    rw [withClause_nil, hc.upTo_self]
    exact ⟨.pure source () c, hc⟩
  | some us =>
    have hc₁ := hc.upTo (Grammar.advances_of_keyword? hwhere).1
    have hfirst : Runs source (connector true) (c.upTo source us) (.ok true)
        (withClause [] false ((c.upTo source us).upTo source us)) := by
      rw [withClause_nil]
      exact .pure source true _
    show Gives source (loop nextSpan (true, 0)) (c.upTo source us) _
    dsimp only
    cases hs : span us with
    | error u =>
      exact ⟨_, Runs.loop_error (nextSpan_error 0 hfirst (hc₁.met false) hs), (hc₁.met _).sound⟩
    | ok r =>
      obtain ⟨s, rest⟩ := r
      cases s with
      | nil =>
        have hspan := nextSpan_none 0 hfirst (hc₁.met false) hs
        rw [rewind_met] at hspan
        exact ⟨Runs.loop_stop hspan, hc₁.met false⟩
      | cons u s =>
        have hspans := gives_span 0 hc₁ (List.suffix_refl us) hfirst hs (by simp)
          gives_moreSpans
        dsimp only
        cases hw : moreSpans rest with
        | error e =>
          rw [hw] at hspans
          exact hspans
        | ok w =>
          rw [hw] at hspans
          simp only [Except.map, Bool.false_or] at hspans
          exact hspans

end TypedMirror.Stepwise
