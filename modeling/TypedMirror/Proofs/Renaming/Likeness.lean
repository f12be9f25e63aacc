import Mathlib.Data.List.Forall2
import TypedMirror.Proofs.Formula
import TypedMirror.Proofs.Reading

/-!
# Token lists of one shape

Whether a production reads a phrase, and how far it reads, depends on the kinds and texts of tokens,
and not on which name stands where a name is asked for.

* `Option.Rel` of `Along R` — two lists are read alike, and what is left of them is alike again;
* `tableRef_rel`, `join_rel` — of lists that differ in their names;
* `whereSpans_like`, `predicatesFrom_like` — of lists that differ in the positions only.
-/

namespace TypedMirror

/-- Tokens of one kind and text, wherever they stand. -/
inductive Token.Alike : Token → Token → Prop
  | intro (kind : Token.Kind) (text : Text) (start start' : Nat) :
    Token.Alike ⟨kind, text, start⟩ ⟨kind, text, start'⟩

namespace Grammar

/-- Tokens that are alike, or both names. -/
inductive Similar : Token → Token → Prop
  | alike {t u : Token} (h : t.Alike u) : Similar t u
  | names {t u : Token} (ht : isIdentifier t = true) (hu : isIdentifier u = true) : Similar t u

section Tokens

variable {t u : Token} {word : String} {c : Char}

theorem kind_of_isIdentifier (h : isIdentifier t = true) :
    t.kind = .word ∧ isReserved t = false ∨ t.kind = .quotedName := by
  unfold isIdentifier at h
  split at h
  · exact .inr (by assumption)
  · exact .inl ⟨by assumption, by simpa using h⟩
  · cases h

theorem isKeyword_of_isIdentifier (h : isIdentifier t = true) (hw : word ∈ reserved) :
    t.isKeyword word = false := by
  rcases kind_of_isIdentifier h with ⟨-, hreserved⟩ | hkind
  · exact Bool.eq_false_iff.2 (List.any_eq_false.1 hreserved word hw)
  · exact not_isKeyword_of_kind (by rw [hkind]; decide)

theorem isPunct_of_isIdentifier (h : isIdentifier t = true) : t.isPunct c = false := by
  rcases kind_of_isIdentifier h with ⟨hkind, -⟩ | hkind
  · exact not_isPunct_of_kind (by rw [hkind]; decide)
  · exact not_isPunct_of_kind (by rw [hkind]; decide)

theorem not_operator_of_isIdentifier (h : isIdentifier t = true) : t.kind ≠ .operator := by
  rcases kind_of_isIdentifier h with ⟨hkind, -⟩ | hkind
  · rw [hkind]
    decide
  · rw [hkind]
    decide

namespace Similar

variable (h : Similar t u)

include h

theorem isKeyword (hw : word ∈ reserved) : t.isKeyword word = u.isKeyword word := by
  cases h with
  | alike h => cases h; rfl
  | names ht hu => rw [isKeyword_of_isIdentifier ht hw, isKeyword_of_isIdentifier hu hw]

theorem isPunct (c : Char) : t.isPunct c = u.isPunct c := by
  cases h with
  | alike h => cases h; rfl
  | names ht hu => rw [isPunct_of_isIdentifier ht, isPunct_of_isIdentifier hu]

theorem isIdentifier : isIdentifier t = isIdentifier u := by
  cases h with
  | alike h => cases h; rfl
  | names ht hu => rw [ht, hu]

/-- A word or a quoted name. -/
theorem isName : (t.kind = .word ∨ t.kind = .quotedName) ↔
    (u.kind = .word ∨ u.kind = .quotedName) := by
  cases h with
  | alike h => cases h; rfl
  | names ht hu =>
    exact iff_of_true ((kind_of_isIdentifier ht).imp_left And.left)
      ((kind_of_isIdentifier hu).imp_left And.left)

theorem operator : (t.kind = .operator ∧ u.kind = .operator ∧ t.text = u.text) ∨
    (t.kind ≠ .operator ∧ u.kind ≠ .operator) := by
  cases h with
  | alike h =>
    cases h with
    | intro kind text start start' =>
      by_cases hkind : kind = .operator
      · exact .inl ⟨hkind, hkind, rfl⟩
      · exact .inr ⟨hkind, hkind⟩
  | names ht hu => exact .inr ⟨not_operator_of_isIdentifier ht, not_operator_of_isIdentifier hu⟩

end Similar

end Tokens

/-! ## Reading two lists at a time -/

section Rel

variable {α α' β β' : Type} {r : α → α' → Prop} {s : β → β' → Prop}

theorem cases_of_rel {a : Option α} {b : Option α'} (h : Option.Rel r a b) :
    (a = none ∧ b = none) ∨ ∃ x y, a = some x ∧ b = some y ∧ r x y := by
  cases h with
  | none => exact .inl ⟨rfl, rfl⟩
  | some hxy => exact .inr ⟨_, _, rfl, rfl, hxy⟩

theorem rel_bind {a : Option α} {b : Option α'} {f : α → Option β} {g : α' → Option β'}
    (h : Option.Rel r a b) (hfg : ∀ x y, r x y → Option.Rel s (f x) (g y)) :
    Option.Rel s (a.bind f) (b.bind g) := by
  cases h with
  | none => exact .none
  | some hxy => exact hfg _ _ hxy

theorem rel_map {a : Option α} {b : Option α'} {f : α → β} {g : α' → β'}
    (h : Option.Rel r a b) (hfg : ∀ x y, r x y → s (f x) (g y)) :
    Option.Rel s (a.map f) (b.map g) := by
  cases h with
  | none => exact .none
  | some hxy => exact .some (hfg _ _ hxy)

/-- Related results, and related tokens left. -/
def Along (R : Token → Token → Prop) (r : α → α' → Prop) (p : α × List Token)
    (q : α' × List Token) : Prop :=
  r p.1 q.1 ∧ List.Forall₂ R p.2 q.2

/-- Any two results. -/
def Whatever (_ : α) (_ : α') : Prop := True

end Rel

section Productions

variable {R : Token → Token → Prop} (hR : ∀ t u, R t u → Similar t u) {source source' : Text}
  {ts us : List Token}

include hR

theorem keyword?_rel {word : String} (hw : word ∈ reserved) (h : List.Forall₂ R ts us) :
    Option.Rel (List.Forall₂ R) (keyword? word ts) (keyword? word us) := by
  cases h with
  | nil => exact .none
  | cons ht hrest =>
    unfold keyword?
    dsimp only
    rw [(hR _ _ ht).isKeyword hw]
    split
    · exact .some hrest
    · exact .none

theorem punct?_rel (c : Char) (h : List.Forall₂ R ts us) :
    Option.Rel (List.Forall₂ R) (punct? c ts) (punct? c us) := by
  cases h with
  | nil => exact .none
  | cons ht hrest =>
    unfold punct?
    dsimp only
    rw [(hR _ _ ht).isPunct]
    split
    · exact .some hrest
    · exact .none

theorem getD_rel {word : String} (hw : word ∈ reserved) (h : List.Forall₂ R ts us) :
    List.Forall₂ R ((keyword? word ts).getD ts) ((keyword? word us).getD us) := by
  rcases cases_of_rel (keyword?_rel hR hw h) with ⟨hts, hus⟩ | ⟨xs, ys, hts, hus, hrest⟩
  · rw [hts, hus]
    exact h
  · rw [hts, hus]
    exact hrest

theorem readAlias_rel (h : List.Forall₂ R ts us) :
    List.Forall₂ R (readAlias ts).2 (readAlias us).2 := by
  have hname := getD_rel hR (by decide : "AS" ∈ reserved) h
  unfold readAlias
  generalize (keyword? "AS" ts).getD ts = xs at hname
  generalize (keyword? "AS" us).getD us = ys at hname
  cases hname with
  | nil => exact h
  | cons ht hrest =>
    dsimp only
    rw [(hR _ _ ht).isIdentifier]
    split
    · exact hrest
    · exact h

theorem tableRef_rel (h : List.Forall₂ R ts us) :
    Option.Rel (Along R Whatever) (tableRef ts) (tableRef us) := by
  cases h with
  | nil => exact .none
  | @cons t u ts us ht hrest =>
    have hdot : (punct? '.' ts).isNone = (punct? '.' us).isNone := by
      rcases cases_of_rel (punct?_rel hR '.' hrest) with ⟨hts, hus⟩ | ⟨_, _, hts, hus, -⟩
      · rw [hts, hus]
      · rw [hts, hus]
        rfl
    unfold tableRef
    dsimp only
    rw [(hR _ _ ht).isIdentifier, hdot]
    split
    · exact .some ⟨trivial, readAlias_rel hR hrest⟩
    · exact .none

/-- The spellings of related tokens. -/
def Spelled (R : Token → Token → Prop) (a b : Text) : Prop := ∃ t u, R t u ∧ a = t.name ∧ b = u.name

theorem columnRef_rel (h : List.Forall₂ R ts us) :
    Option.Rel (Along R fun c d => Option.Rel (Spelled R) c.qualifier d.qualifier ∧
      Spelled R c.name d.name) (columnRef source ts) (columnRef source' us) := by
  cases h with
  | nil => exact .none
  | @cons t u ts us ht hrest =>
    unfold columnRef
    dsimp only
    rw [(hR _ _ ht).isIdentifier]
    split
    · rcases cases_of_rel (punct?_rel hR '.' hrest) with ⟨hts, hus⟩ | ⟨xs, ys, hts, hus, hdot⟩
      · rw [hts, hus]
        exact .some ⟨⟨.none, t, u, ht, rfl, rfl⟩, hrest⟩
      rw [hts, hus]
      cases hdot with
      | nil => exact .none
      | @cons n m _ _ hn hafter =>
        dsimp only
        by_cases hname : n.kind = .word ∨ n.kind = .quotedName
        · rw [if_pos hname, if_pos ((hR _ _ hn).isName.1 hname)]
          exact .some ⟨⟨.some ⟨t, u, ht, rfl, rfl⟩, n, m, hn, rfl, rfl⟩, hafter⟩
        · rw [if_neg hname, if_neg fun h => hname ((hR _ _ hn).isName.2 h)]
          exact .none
    · exact .none

theorem operator_rel (allowIn : Bool) (h : List.Forall₂ R ts us) :
    Option.Rel (Along R Eq) (operator allowIn ts) (operator allowIn us) := by
  cases h with
  | nil => exact .none
  | @cons t u ts us ht hrest =>
    have hopens : ∀ {xs ys : List Token}, List.Forall₂ R xs ys → opensList xs = opensList ys := by
      intro xs ys hxy
      unfold opensList
      rcases cases_of_rel (punct?_rel hR '(' hxy) with ⟨hx, hy⟩ | ⟨_, _, hx, hy, -⟩
      · rw [hx, hy]
      · rw [hx, hy]
        rfl
    have hlike := (hR _ _ ht).isKeyword (by decide : "LIKE" ∈ reserved)
    have his := (hR _ _ ht).isKeyword (by decide : "IS" ∈ reserved)
    have hnot := (hR _ _ ht).isKeyword (by decide : "NOT" ∈ reserved)
    have hin := (hR _ _ ht).isKeyword (by decide : "IN" ∈ reserved)
    unfold operator
    dsimp only
    rcases (hR _ _ ht).operator with ⟨htkind, hukind, htext⟩ | ⟨htkind, hukind⟩
    · rw [if_pos htkind, if_pos hukind, htext]
      cases Operator.ofSymbol? u.text with
      | none => exact .none
      | some o => exact .some ⟨rfl, hrest⟩
    rw [if_neg htkind, if_neg hukind, hlike, his, hnot, hin, hopens hrest]
    split
    · exact .some ⟨rfl, hrest⟩
    split
    · rcases cases_of_rel (keyword?_rel hR (by decide : "NOT" ∈ reserved) hrest) with
        ⟨hts, hus⟩ | ⟨xs, ys, hts, hus, hafter⟩
      · rw [hts, hus]
        exact .some ⟨rfl, hrest⟩
      · rw [hts, hus]
        exact .some ⟨rfl, hafter⟩
    split
    · rcases cases_of_rel (keyword?_rel hR (by decide : "LIKE" ∈ reserved) hrest) with
        ⟨hts, hus⟩ | ⟨xs, ys, hts, hus, hafter⟩
      · rw [hts, hus]
        rcases cases_of_rel (keyword?_rel hR (by decide : "IN" ∈ reserved) hrest) with
          ⟨hts, hus⟩ | ⟨xs, ys, hts, hus, hafter⟩
        · rw [hts, hus]
          exact .none
        · rw [hts, hus]
          dsimp only
          rw [hopens hafter]
          split
          · exact .some ⟨rfl, hafter⟩
          · exact .none
      · rw [hts, hus]
        exact .some ⟨rfl, hafter⟩
    split
    · exact .some ⟨rfl, hrest⟩
    · exact .none

/-! ## Joins -/

theorem joinKind_rel (h : List.Forall₂ R ts us) :
    Option.Rel (Along R Eq) (joinKind ts) (joinKind us) := by
  have hjoin : ∀ {xs ys : List Token} (kind : JoinKind), List.Forall₂ R xs ys →
      Option.Rel (Along R Eq) ((keyword? "JOIN" xs).map (kind, ·))
        ((keyword? "JOIN" ys).map (kind, ·)) := fun kind hxy =>
    rel_map (keyword?_rel hR (by decide : "JOIN" ∈ reserved) hxy) fun _ _ hrest => ⟨rfl, hrest⟩
  cases h with
  | nil => exact .none
  | @cons t u ts us ht hrest =>
    have houter := getD_rel hR (by decide : "OUTER" ∈ reserved) hrest
    unfold joinKind
    dsimp only
    rw [(hR _ _ ht).isKeyword (by decide : "JOIN" ∈ reserved),
      (hR _ _ ht).isKeyword (by decide : "LEFT" ∈ reserved),
      (hR _ _ ht).isKeyword (by decide : "RIGHT" ∈ reserved),
      (hR _ _ ht).isKeyword (by decide : "INNER" ∈ reserved),
      (hR _ _ ht).isKeyword (by decide : "OUTER" ∈ reserved),
      (hR _ _ ht).isKeyword (by decide : "CROSS" ∈ reserved)]
    split
    · exact .some ⟨rfl, hrest⟩
    split
    · exact hjoin .left houter
    split
    · exact hjoin .right houter
    split
    · exact hjoin .inner hrest
    split
    · exact hjoin .outer hrest
    split
    · exact hjoin .cross hrest
    · exact .none

theorem comparison_rel (h : List.Forall₂ R ts us) :
    Option.Rel (Along R Whatever) (comparison source ts) (comparison source' us) :=
  rel_bind (columnRef_rel hR h) fun _ _ hleft =>
    rel_bind (operator_rel hR false hleft.2) fun _ _ hop =>
      rel_bind (columnRef_rel hR hop.2) fun _ _ hright => .some ⟨trivial, hright.2⟩

theorem joinCondition_rel (h : List.Forall₂ R ts us) :
    Option.Rel (Along R Whatever) (joinCondition source ts) (joinCondition source' us) := by
  unfold joinCondition
  rcases cases_of_rel (punct?_rel hR '(' h) with ⟨hts, hus⟩ | ⟨xs, ys, hts, hus, hinner⟩
  · rw [hts, hus]
    exact comparison_rel hR h
  · rw [hts, hus]
    exact rel_bind (comparison_rel hR hinner) fun _ _ hon =>
      rel_bind (punct?_rel hR ')' hon.2) fun _ _ hrest => .some ⟨trivial, hrest⟩

theorem join_rel (h : List.Forall₂ R ts us) :
    Option.Rel (Along R Whatever) (join source ts) (join source' us) :=
  rel_bind (joinKind_rel hR h) fun _ _ hkind =>
    rel_bind (tableRef_rel hR hkind.2) fun _ _ htable =>
      rel_bind (keyword?_rel hR (by decide : "ON" ∈ reserved) htable.2) fun _ _ hon =>
        rel_bind (joinCondition_rel hR hon) fun _ _ hrest => .some ⟨trivial, hrest.2⟩

end Productions

/-! ## The WHERE clause -/

section Where

open List (Forall₂)

variable {source source' : Text} {ts us s : List Token} {t u : Token}

theorem connects?_eq (h : t.Alike u) : connects? t = connects? u := by
  cases h
  rfl

theorem literalId?_eq (h : t.Alike u) : literalId? t = literalId? u := by
  cases h
  rfl

theorem endsSpan_eq (ht : t.Alike u) (h : Forall₂ Token.Alike ts us) :
    endsSpan t ts = endsSpan u us := by
  have hby : (keyword? "BY" ts).isSome = (keyword? "BY" us).isSome := by
    rcases cases_of_rel (keyword?_rel (fun _ _ => .alike) (by decide : "BY" ∈ reserved) h) with
      ⟨hts, hus⟩ | ⟨_, _, hts, hus, -⟩
    · rw [hts, hus]
    · rw [hts, hus]
      rfl
  have hempty : ts.isEmpty = us.isEmpty := by cases h <;> rfl
  unfold endsSpan
  rw [connects?_eq ht, hby, hempty]
  cases ht
  rfl

theorem span_like (h : Forall₂ Token.Alike ts us) {p : List Token × List Token}
    (hp : span ts = .ok p) :
    ∃ q, span us = .ok q ∧ Forall₂ Token.Alike p.1 q.1 ∧ Forall₂ Token.Alike p.2 q.2 := by
  induction h generalizing p with
  | nil =>
    cases hp
    exact ⟨([], []), rfl, .nil, .nil⟩
  | @cons t u ts us ht h ih =>
    have hselect : t.isKeyword "SELECT" = u.isKeyword "SELECT" := by
      cases ht
      rfl
    unfold span at hp ⊢
    rw [hselect, endsSpan_eq ht h] at hp
    split at hp
    · cases hp
    rename_i hs
    rw [if_neg hs]
    split at hp
    · rename_i hend
      cases hp
      rw [if_pos hend]
      exact ⟨([], u :: us), rfl, .nil, .cons ht h⟩
    · rename_i hend
      obtain ⟨p, hspan, rfl⟩ := map_eq_ok.1 hp
      obtain ⟨q, hq, hfirst, hrest⟩ := ih hspan
      rw [if_neg hend, hq]
      exact ⟨(u :: q.1, q.2), rfl, .cons ht hfirst, hrest⟩

/-- Spans of like tokens. -/
structure Spans.Like (w v : Spans) : Prop where
  spans : Forall₂ (Forall₂ Token.Alike) w.spans v.spans
  usesOr : w.usesOr = v.usesOr
  rest : Forall₂ Token.Alike w.rest v.rest

theorem moreSpans_like (h : Forall₂ Token.Alike ts us) {w : Spans} (hw : moreSpans ts = .ok w) :
    ∃ v, moreSpans us = .ok v ∧ w.Like v := by
  fun_induction moreSpans ts generalizing us w with
  | case1 =>
    cases h
    cases hw
    exact ⟨_, by rw [moreSpans], .nil, rfl, .nil⟩
  | case2 t ts hc =>
    cases hw
    cases h with
    | @cons _ u _ us ht h =>
      refine ⟨⟨[], false, u :: us⟩, ?_, .nil, rfl, .cons ht h⟩
      rw [connects?_eq ht] at hc
      rw [moreSpans, hc]
  | case3 => cases hw
  | case4 t ts c hc rest hs =>
    cases hw
    cases h with
    | @cons _ u _ us ht h =>
      obtain ⟨⟨s', rest'⟩, hs', hfirst, -⟩ := span_like h hs
      cases hfirst
      refine ⟨⟨[], c = .disjunction, u :: us⟩, ?_, .nil, rfl, .cons ht h⟩
      rw [connects?_eq ht] at hc
      rw [moreSpans, hc]
      dsimp only
      split
      · rename_i heq
        cases heq.symm.trans hs'
      · rfl
      · rename_i heq
        cases heq.symm.trans hs'
  | case5 t ts c hc x s rest hs _ ih =>
    obtain ⟨more, hmore, rfl⟩ := map_eq_ok.1 hw
    cases h with
    | @cons _ u _ us ht h =>
      obtain ⟨⟨s', rest'⟩, hs', hfirst, hrest⟩ := span_like h hs
      obtain ⟨v, hv, hlike⟩ := ih hrest hmore
      cases hfirst with
      | @cons _ x' _ s' hx hxs =>
        refine ⟨⟨(x' :: s') :: v.spans, c = .disjunction || v.usesOr, v.rest⟩, ?_,
          .cons (.cons hx hxs) hlike.spans, by rw [hlike.usesOr], hlike.rest⟩
        rw [connects?_eq ht] at hc
        rw [moreSpans, hc]
        dsimp only
        split
        · rename_i heq
          cases heq.symm.trans hs'
        · rename_i heq
          cases heq.symm.trans hs'
        · rename_i heq
          cases heq.symm.trans hs'
          rw [hv]
          rfl

theorem whereSpans_like (h : Forall₂ Token.Alike ts us) {w : Spans} (hw : whereSpans ts = .ok w) :
    ∃ v, whereSpans us = .ok v ∧ w.Like v := by
  unfold whereSpans at hw ⊢
  rcases cases_of_rel (keyword?_rel (fun _ _ => .alike) (by decide : "WHERE" ∈ reserved) h) with
    ⟨hts, hus⟩ | ⟨xs, ys, hts, hus, hrest⟩
  · rw [hts] at hw
    rw [hus]
    cases hw
    exact ⟨_, rfl, .nil, rfl, h⟩
  · rw [hts] at hw
    rw [hus]
    dsimp only at hw ⊢
    split at hw
    · cases hw
    · rename_i rest hs
      cases hw
      obtain ⟨⟨s', rest'⟩, hs', hfirst, -⟩ := span_like hrest hs
      cases hfirst
      rw [hs']
      exact ⟨_, rfl, .nil, rfl, hrest⟩
    · rename_i x s rest hs
      obtain ⟨more, hmore, rfl⟩ := map_eq_ok.1 hw
      obtain ⟨⟨s', rest'⟩, hs', hfirst, hafter⟩ := span_like hrest hs
      obtain ⟨v, hv, hlike⟩ := moreSpans_like hafter hmore
      rw [hs']
      cases hfirst with
      | cons hx hxs =>
        dsimp only
        rw [hv]
        exact ⟨_, rfl, .cons (.cons hx hxs) hlike.spans, hlike.usesOr, hlike.rest⟩

theorem literalItems_eq : ∀ {ts us : List Token}, Forall₂ Token.Alike ts us →
    literalItems ts = literalItems us
  | _, _, .nil => rfl
  | _, _, .cons _ .nil => rfl
  | _, _, .cons hl (.cons hc .nil) => by
    cases hl
    cases hc
    rfl
  | _, _, .cons hl (.cons hc (.cons hx h)) => by
    have hrest := literalItems_eq (.cons hx h)
    cases hl
    cases hc
    rw [literalItems, literalItems, hrest]
    · rfl
    · exact List.cons_ne_nil _ _
    · exact List.cons_ne_nil _ _

theorem literalList?_eq (h : Forall₂ Token.Alike ts us) : literalList? ts = literalList? us := by
  unfold literalList?
  rcases cases_of_rel (punct?_rel (fun _ _ => .alike) '(' h) with
    ⟨hts, hus⟩ | ⟨xs, ys, hts, hus, hrest⟩
  · rw [hts, hus]
  · rw [hts, hus]
    exact literalItems_eq hrest

/-- The same literals, or text that is taken over as it stands. -/
inductive Operand.Like : Operand → Operand → Prop
  | same (o : Operand) : Operand.Like o o
  | other (a b : Text) : Operand.Like (.other a) (.other b)

theorem operand_of_literal {id : Nat} (source : Text) (op : Operator) (h : literalId? t = some id) :
    operand source op [t] = .literal id := by
  have hid : [t].head?.bind literalId? = some id := h
  unfold operand
  rw [hid]

/-- An operand that is no single literal. -/
theorem operand_of_many (source : Text) (op : Operator)
    (h : ∀ t id, ts = [t] → literalId? t ≠ some id) : operand source op ts =
      (if op = .isIn ∨ op = .notIn then literalList? ts else none).elim (.other (sourceOf source ts))
        .literals := by
  unfold operand
  split
  · rename_i t id hid
    exact absurd hid (h t id rfl)
  · split
    · rename_i hids
      rw [hids]
      rfl
    · rename_i hnone
      rw [hnone]
      rfl

theorem operand_like (source source' : Text) (op : Operator) (h : Forall₂ Token.Alike ts us) :
    Operand.Like (operand source op ts) (operand source' op us) := by
  by_cases hone : ∃ t id, ts = [t] ∧ literalId? t = some id
  · obtain ⟨t, id, rfl, hid⟩ := hone
    cases h with
    | @cons _ u _ _ ht hnil =>
      cases hnil
      rw [operand_of_literal source op hid, operand_of_literal source' op (literalId?_eq ht ▸ hid)]
      exact .same _
  · have hmany : ∀ t id, ts = [t] → literalId? t ≠ some id := fun t id ht hid =>
      hone ⟨t, id, ht, hid⟩
    have hmany' : ∀ u id, us = [u] → literalId? u ≠ some id := by
      rintro u id rfl
      cases h with
      | cons ht hnil =>
        cases hnil
        rw [← literalId?_eq ht]
        exact hmany _ id rfl
    rw [operand_of_many source op hmany, operand_of_many source' op hmany', literalList?_eq h]
    cases (if op = .isIn ∨ op = .notIn then literalList? us else none) with
    | none => exact .other _ _
    | some ids => exact .same _

/-- Predicates of one column, operator and operand, wherever they stand. -/
structure Predicate.Like (p q : Predicate) : Prop where
  qualifier : p.column.qualifier = q.column.qualifier
  name : p.column.name = q.column.name
  operator : p.operator = q.operator
  operand : Operand.Like p.operand q.operand

theorem eq_of_spelled {a b : Text} (h : Spelled Token.Alike a b) : a = b := by
  obtain ⟨t, u, ht, rfl, rfl⟩ := h
  cases ht
  rfl

theorem predicate?_rel (source source' : Text) (h : Forall₂ Token.Alike s ts) :
    Option.Rel Predicate.Like (predicate? source s) (predicate? source' ts) := by
  refine rel_bind (columnRef_rel (fun _ _ => .alike) h) fun c d hcolumn => ?_
  refine rel_bind (operator_rel (fun _ _ => .alike) true hcolumn.2) fun o o' hop => ?_
  obtain ⟨⟨hqualifier, hname⟩, -⟩ := hcolumn
  refine .some ⟨?_, eq_of_spelled hname, hop.1, ?_⟩
  · rcases cases_of_rel hqualifier with ⟨hc, hd⟩ | ⟨a, b, hc, hd, hab⟩
    · rw [hc, hd]
    · rw [hc, hd, eq_of_spelled hab]
  · have := operand_like source source' o.1 hop.2
    rw [← hop.1]
    exact this

theorem countP_eq (c : Char) (h : Forall₂ Token.Alike ts us) :
    ts.countP (·.isPunct c) = us.countP (·.isPunct c) := by
  induction h with
  | nil => rfl
  | cons ht _ ih => rw [List.countP_cons, List.countP_cons, ih, (Similar.alike ht).isPunct]

theorem predicatesFrom_like {ss ss' : List (List Token)} (h : Forall₂ (Forall₂ Token.Alike) ss ss')
    (depth : Int) : Forall₂ Predicate.Like (predicatesFrom source depth ss)
      (predicatesFrom source' depth ss') := by
  induction h generalizing depth with
  | nil => exact .nil
  | @cons s s' ss ss' hs _ ih =>
    have hbalance : balance s = balance s' := by
      unfold balance
      rw [countP_eq '(' hs, countP_eq ')' hs]
    rw [predicatesFrom, predicatesFrom, hbalance]
    refine List.rel_append ?_ (ih _)
    split
    · rcases cases_of_rel (predicate?_rel source source' hs) with
        ⟨hp, hq⟩ | ⟨p, q, hp, hq, hlike⟩
      · rw [hp, hq]
        exact .nil
      · rw [hp, hq]
        exact .cons hlike .nil
    · exact .nil

end Where

end Grammar

end TypedMirror
