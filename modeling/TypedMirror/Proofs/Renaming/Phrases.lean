import TypedMirror.Proofs.Placement
import TypedMirror.Proofs.Renaming.Likeness

/-!
# Phrases with a table

The tables of a query are read from phrases, each with one name that a word or a comma stands in
front of.  With another name in that place the phrase is read again, and so is a whole query.

* `tableRef_again`, `join_again` — one table under another name;
* `many_again` — any number of them;
* `Query.parse_again` — the tables of a query.
-/

namespace TypedMirror.Grammar

open List (Forall₂)

/-- Tokens of which one names a table. -/
structure Phrase where
  before : List Token
  /-- What stands right in front of the name. -/
  lead : Token
  name : Token
  after : List Token
  isLead : lead.kind = .word ∨ lead.isPunct ',' = true
  isName : isIdentifier name = true

namespace Phrase

def tokens (p : Phrase) : List Token := p.before ++ p.lead :: p.name :: p.after

/-- The phrase with its table under another name. -/
structure Like (f : Text → Text) (p q : Phrase) : Prop where
  before : Forall₂ Token.Alike p.before q.before
  lead : p.lead.Alike q.lead
  name : q.name.name = f p.name.name
  after : Forall₂ Token.Alike p.after q.after

/-- The table is the one that the phrase names. -/
def Names (p : Phrase) (x : TableRef) : Prop :=
  x.name = p.name.name ∧ x.position = namePosition p.name

theorem map_of_names {xs : List Phrase} {ts : List TableRef} (h : Forall₂ Names xs ts) :
    xs.map (·.name.name) = ts.map (·.name) ∧
      xs.map (namePosition ·.name) = ts.map (·.position) := by
  induction h with
  | nil => exact ⟨rfl, rfl⟩
  | cons hx _ ih =>
    rw [List.map_cons, List.map_cons, List.map_cons, List.map_cons, ih.1, ih.2, hx.1, hx.2]
    exact ⟨rfl, rfl⟩

theorem Like.similar {f : Text → Text} {p q : Phrase} (h : p.Like f q) :
    Forall₂ Similar p.tokens q.tokens :=
  List.rel_append (h.before.imp fun _ _ => .alike)
    (.cons (.alike h.lead) (.cons (.names p.isName q.isName) (h.after.imp fun _ _ => .alike)))

end Phrase

/-- The table under another name, and with the alias it had. -/
structure Renamed (f : Text → Text) (x y : TableRef) : Prop where
  name : y.name = f x.name
  aliasName : y.aliasName = x.aliasName

section Rest

variable {ts us as bs rest rest' left : List Token}

/-- Of two ends of a list, one is not as long as the other. -/
theorem eq_of_suffix (h : rest <:+ ts) (h' : left <:+ ts) (hlength : rest.length = left.length) :
    rest = left :=
  (List.suffix_of_suffix_length_le h h' (Nat.le_of_eq hlength)).eq_of_length hlength

/-- What is left of like tokens is of the same length, so it is the same end of them. -/
theorem eq_of_rest (h : Forall₂ Similar rest rest') (hleft : Forall₂ Similar rest left)
    (hrest : rest' <:+ ts) (hts : left <:+ ts) : left = rest' :=
  eq_of_suffix hts hrest (hleft.length_eq.symm.trans h.length_eq)

end Rest

section Rel

variable {α β : Type} {r : α → β → Prop} {a : Option α} {b : Option β}

theorem none_of_rel (h : Option.Rel r a b) (ha : a = none) : b = none := by
  subst ha
  cases h
  rfl

theorem some_of_rel {x : α} (h : Option.Rel r a b) (ha : a = some x) : ∃ y, b = some y ∧ r x y := by
  subst ha
  cases h with
  | some hxy => exact ⟨_, rfl, hxy⟩

end Rel

/-! ## One table -/

section Table

variable {f : Text → Text} {source source' : Text} {ts as as' rest rest' : List Token} {t t' : Token}
  {x : TableRef}

theorem readAlias_eq (ts : List Token) : ∃ as, ts = as ++ (readAlias ts).2 ∧
    (readAlias ts).1 = as.getLast?.map Token.name := by
  unfold readAlias
  cases has : keyword? "AS" ts with
  | none =>
    cases ts with
    | nil => exact ⟨[], rfl, rfl⟩
    | cons t ts =>
      dsimp only [Option.getD]
      split
      · exact ⟨[t], rfl, rfl⟩
      · exact ⟨[], rfl, rfl⟩
  | some us =>
    obtain ⟨a, rfl, -⟩ := exists_of_keyword? has
    cases us with
    | nil => exact ⟨[], rfl, rfl⟩
    | cons t us =>
      dsimp only [Option.getD]
      split
      · exact ⟨[a, t], rfl, rfl⟩
      · exact ⟨[], rfl, rfl⟩

/-- A name, and behind it the tokens of its alias. -/
theorem tableRef_eq_some (h : tableRef ts = some (x, rest)) :
    ∃ t as, ts = t :: (as ++ rest) ∧ isIdentifier t = true ∧ x.name = t.name ∧
      x.position = namePosition t ∧ x.aliasName = as.getLast?.map Token.name := by
  unfold tableRef at h
  split at h
  · cases h
  · rename_i t ts
    split at h
    · rename_i ht
      rw [Bool.and_eq_true] at ht
      cases h
      obtain ⟨as, has, halias⟩ := readAlias_eq ts
      exact ⟨t, as, congrArg (t :: ·) has, ht.1, rfl, rfl, halias⟩
    · cases h

theorem map_name_eq (h : Forall₂ Token.Alike as as') :
    as.map Token.name = as'.map Token.name := by
  induction h with
  | nil => rfl
  | cons ha _ ih =>
    cases ha
    exact congrArg (_ :: ·) ih

/-- The table is read again under another name. -/
theorem tableRef_again (h : tableRef (t :: (as ++ rest)) = some (x, rest))
    (ht : isIdentifier t' = true) (has : Forall₂ Token.Alike as as')
    (hrest : Forall₂ Similar rest rest') : ∃ y, tableRef (t' :: (as' ++ rest')) = some (y, rest') ∧
      y.name = t'.name ∧ y.aliasName = x.aliasName := by
  obtain ⟨u, bs, htokens, hu, -, -, halias⟩ := tableRef_eq_some h
  obtain ⟨rfl, hbs⟩ := List.cons.inj htokens
  obtain rfl := List.append_cancel_right hbs
  have hsimilar : Forall₂ Similar (t :: (as ++ rest)) (t' :: (as' ++ rest')) :=
    .cons (.names hu ht) (List.rel_append (has.imp fun _ _ => .alike) hrest)
  obtain ⟨⟨y, left⟩, hy, -, hleft⟩ := some_of_rel (tableRef_rel (fun _ _ => id) hsimilar) h
  obtain rfl := eq_of_rest hrest hleft ((List.suffix_append as' rest').trans (List.suffix_cons _ _))
    (advances_of_tableRef hy).1
  refine ⟨y, hy, ?_⟩
  obtain ⟨u', bs, htokens, -, hname, -, halias'⟩ := tableRef_eq_some hy
  obtain ⟨rfl, hbs⟩ := List.cons.inj htokens
  obtain rfl := List.append_cancel_right hbs
  rw [halias', halias, ← List.getLast?_map, ← List.getLast?_map, map_name_eq has]
  exact ⟨hname, rfl⟩

end Table

/-! ## Many tables -/

section Many

variable {α : Type} {f : Text → Text} {ts us rest : List Token}

theorem exists_of_forall₂_append {β γ : Type} {R : β → γ → Prop} {as bs : List β} {cs : List γ}
    (h : Forall₂ R (as ++ bs) cs) : ∃ as' bs', cs = as' ++ bs' ∧ Forall₂ R as as' ∧
      Forall₂ R bs bs' := by
  induction as generalizing cs with
  | nil => exact ⟨[], cs, rfl, .nil, h⟩
  | cons a as ih =>
    cases h with
    | cons ha h =>
      obtain ⟨as', bs', rfl, has, hbs⟩ := ih h
      exact ⟨_ :: as', bs', rfl, .cons ha has, hbs⟩

/-- What is read is a phrase, and its table is read again where the phrase stands under another name,
in whatever text; where nothing is read, nothing is read again. -/
structure Repeats (p : Text → Production α) (table : α → TableRef) : Prop where
  stop : ∀ {source source' : Text} {ts us : List Token}, (p source).read ts = none →
    Forall₂ Similar ts us → (p source').read us = none
  again : ∀ {source : Text} {ts : List Token} {a : α} {rest : List Token},
    (p source).read ts = some (a, rest) → ∃ x : Phrase, ts = x.tokens ++ rest ∧ x.Names (table a) ∧
      ∀ source' f y rest', x.Like f y → Forall₂ Similar rest rest' →
        ∃ b, (p source').read (y.tokens ++ rest') = some (b, rest') ∧ Renamed f (table a) (table b)

theorem repeats_tables : Repeats (fun _ => Production.afterComma tables) id where
  stop h hts := none_of_rel
    (rel_bind (punct?_rel (fun _ _ => id) ',' hts) fun _ _ => tableRef_rel fun _ _ => id) h
  again h := by
    obtain ⟨us, hcomma, hx⟩ := Option.bind_eq_some_iff.1 h
    obtain ⟨l, rfl, hl⟩ := exists_of_punct? hcomma
    obtain ⟨t, as, rfl, ht, hname, hposition, -⟩ := tableRef_eq_some hx
    refine ⟨⟨[], l, t, as, .inr hl, ht⟩, rfl, ⟨hname, hposition⟩, ?_⟩
    rintro - f ⟨before, l', t', as', hl', ht'⟩ rest' ⟨hbefore, hlead, hname', hafter⟩ hrest
    cases hbefore
    obtain ⟨y, hy, hyname, hyalias⟩ := tableRef_again hx ht' hafter hrest
    refine ⟨y, ?_, hyname.trans (hname'.trans (congrArg f hname.symm)), hyalias⟩
    have hcomma' : punct? ',' (l' :: t' :: (as' ++ rest')) = some (t' :: (as' ++ rest')) :=
      if_pos (((Similar.alike hlead).isPunct ',').symm.trans hl)
    exact Option.bind_eq_some_iff.2 ⟨_, hcomma', hy⟩

theorem repeats_joins : Repeats joins (·.table) where
  stop h hts := none_of_rel (join_rel (fun _ _ => id) hts) h
  again {source ts j rest} h := by
    have h' : join source ts = some (j, rest) := h
    simp only [join, Option.bind_eq_bind, Option.bind_eq_some_iff, Option.some.injEq,
      Prod.mk.injEq] at h'
    obtain ⟨⟨k, us⟩, hkind, ⟨x, vs⟩, hx, ws, hon, ⟨on, zs⟩, hcond, rfl, rfl⟩ := h'
    obtain ⟨ks, l, rfl, hl⟩ := exists_of_joinKind hkind
    obtain ⟨t, as, rfl, ht, hname, hposition, -⟩ := tableRef_eq_some hx
    obtain ⟨cs, rfl⟩ : zs <:+ vs :=
      (advances_of_joinCondition hcond).1.trans (advances_of_keyword? hon).1
    refine ⟨⟨ks, l, t, as ++ cs, .inl (kind_of_isKeyword hl), ht⟩, ?_, ⟨hname, hposition⟩, ?_⟩
    · simp [Phrase.tokens]
    rintro source' f ⟨ks', l', t', after, hl', ht'⟩ rest' ⟨hbefore, hlead, hname', hafter⟩ hrest
    obtain ⟨as', cs', rfl, has, hcs⟩ := exists_of_forall₂_append hafter
    have hvs : Forall₂ Similar (cs ++ zs) (cs' ++ rest') :=
      List.rel_append (hcs.imp fun _ _ => .alike) hrest
    have hus : Forall₂ Similar (t :: (as ++ (cs ++ zs))) (t' :: (as' ++ (cs' ++ rest'))) :=
      .cons (.names ht ht') (List.rel_append (has.imp fun _ _ => .alike) hvs)
    have htokens : (Phrase.tokens ⟨ks', l', t', as' ++ cs', hl', ht'⟩) ++ rest' =
        ks' ++ l' :: t' :: (as' ++ (cs' ++ rest')) := by simp [Phrase.tokens]
    have hts : Forall₂ Similar (ks ++ l :: t :: (as ++ (cs ++ zs)))
        (ks' ++ l' :: t' :: (as' ++ (cs' ++ rest'))) :=
      List.rel_append (hbefore.imp fun _ _ => .alike) (.cons (.alike hlead) hus)
    rw [htokens]
    -- each part is read again, and leaves the same tokens as before
    obtain ⟨⟨k', left⟩, hkind', -, hleft⟩ := some_of_rel (joinKind_rel (fun _ _ => id) hts) hkind
    obtain rfl := eq_of_rest hus hleft ((List.suffix_cons l' _).trans (List.suffix_append ks' _))
      (advances_of_joinKind hkind').1
    obtain ⟨y, hy, hyname, hyalias⟩ := tableRef_again hx ht' has hvs
    obtain ⟨ws', hon', hws⟩ :=
      some_of_rel (keyword?_rel (fun _ _ => id) (by decide : "ON" ∈ reserved) hvs) hon
    have hrel : Option.Rel (Along Similar Whatever) (joinCondition source ws)
        (joinCondition source' ws') := joinCondition_rel (fun _ _ => id) hws
    obtain ⟨⟨on', left⟩, hcond', -, hleft⟩ := some_of_rel hrel hcond
    obtain rfl := eq_of_rest hrest hleft (List.suffix_append cs' rest')
      ((advances_of_joinCondition hcond').1.trans (advances_of_keyword? hon').1)
    refine ⟨⟨k', y, on'.1, on'.2.1, on'.2.2⟩, ?_,
      hyname.trans (hname'.trans (congrArg f hname.symm)), hyalias⟩
    show join source' _ = _
    simp only [join, Option.bind_eq_bind, hkind', Option.bind_some, hy, hon', hcond']

theorem many_of_none {p : Production α} (h : p.read ts = none) : p.many ts = ([], ts) := by
  rw [Production.many]
  split
  · rfl
  · rename_i heq
    cases h.symm.trans heq

theorem many_of_some {p : Production α} {a : α} (h : p.read ts = some (a, rest)) :
    p.many ts = (a :: (p.many rest).1, (p.many rest).2) := by
  rw [Production.many]
  split
  · rename_i heq
    cases h.symm.trans heq
  · rename_i heq
    cases h.symm.trans heq
    rfl

/-- All tables are read again. -/
theorem many_again {p : Text → Production α} {table : α → TableRef} (h : Repeats p table)
    (source : Text) {as : List α} (hm : (p source).many ts = (as, rest)) :
    ∃ xs : List Phrase, ts = xs.flatMap Phrase.tokens ++ rest ∧
      Forall₂ Phrase.Names xs (as.map table) ∧ ∀ source' f ys rest',
        Forall₂ (Phrase.Like f) xs ys → Forall₂ Similar rest rest' →
        ∃ bs, (p source').many (ys.flatMap Phrase.tokens ++ rest') = (bs, rest') ∧
          Forall₂ (Renamed f) (as.map table) (bs.map table) := by
  obtain ⟨rfl, rfl⟩ := Prod.mk.inj ((Prod.eta _).trans hm)
  clear hm
  fun_induction (p source).many ts with
  | case1 ts hr =>
    refine ⟨[], rfl, .nil, ?_⟩
    rintro source' f ys rest' hys hrest
    cases hys
    exact ⟨[], many_of_none (h.stop hr hrest), .nil⟩
  | case2 ts a rest hr _ more ih =>
    obtain ⟨x, rfl, hx, hagain⟩ := h.again hr
    obtain ⟨xs, hrest, hxs, hmore⟩ := ih
    refine ⟨x :: xs, ?_, .cons hx hxs, ?_⟩
    · rw [List.flatMap_cons, List.append_assoc, ← hrest]
    rintro source' f ys rest' hys hleft
    cases hys with
    | @cons _ y _ ys hy hys =>
      obtain ⟨bs, hbs, htables⟩ := hmore source' f ys rest' hys hleft
      have hsimilar : Forall₂ Similar rest (ys.flatMap Phrase.tokens ++ rest') := by
        rw [hrest]
        refine List.rel_append ?_ hleft
        exact List.rel_flatMap hys fun _ _ => Phrase.Like.similar
      obtain ⟨b, hb, hrenamed⟩ := hagain source' f y _ hy hsimilar
      refine ⟨b :: bs, ?_, .cons hrenamed htables⟩
      rw [List.flatMap_cons, List.append_assoc, many_of_some hb, hbs]

end Many

/-! ## Statements -/

section Statements

variable {source source' : Text} {f : Text → Text} {ts bs rest : List Token} {l : Token}
  {r : Reading}

/-- The tables have other names; all else that was read is the same, apart from the places where it
stands. -/
structure Reading.Like (f : Text → Text) (r r' : Reading) : Prop where
  tables : Forall₂ (Renamed f) r.tables r'.tables
  predicates : Forall₂ Predicate.Like r.predicates r'.predicates
  usesOr : r.usesOr = r'.usesOr

theorem tableList_eq_some {xs : List TableRef} (h : tableList .select ts = some (xs, rest)) :
    ∃ x more us, tableRef ts = some (x, us) ∧
      (Production.afterComma tables).many us = (more, rest) ∧ xs = x :: more := by
  obtain ⟨⟨x, us⟩, hx, h⟩ := Option.bind_eq_some_iff.1 h
  cases h
  exact ⟨x, _, us, hx, rfl, rfl⟩

/-- The first table of a read is named behind its `FROM`. -/
theorem readTables_again (h : readTables source .select ts = .ok r) (hr : r.tables ≠ [])
    (bs : List Token) (hl : l.isKeyword "FROM" = true) :
    ∃ (xs : List Phrase) (rest : List Token), bs ++ l :: ts = xs.flatMap Phrase.tokens ++ rest ∧
      Forall₂ Phrase.Names xs r.tables ∧ ∀ source' f ys rest', Forall₂ (Phrase.Like f) xs ys →
        Forall₂ Token.Alike rest rest' → ∃ bs' l' ts' r',
          ys.flatMap Phrase.tokens ++ rest' = bs' ++ l' :: ts' ∧ Forall₂ Token.Alike bs bs' ∧
          l.Alike l' ∧ readTables source' .select ts' = .ok r' ∧ r.Like f r' := by
  rcases readTables_eq_ok h with ⟨-, rfl⟩ |
    ⟨first, us, hlist, ⟨hop, -⟩ | ⟨vs, hvs, hconditions⟩⟩
  · exact absurd rfl hr
  · cases hop
  obtain ⟨x, more, ws, hx, htables, rfl⟩ := tableList_eq_some hlist
  generalize hmany : (joins source).many us = found at hvs hconditions
  obtain ⟨js, zs⟩ := found
  cases hvs
  obtain ⟨w, hw, rfl⟩ := readConditions_eq_ok hconditions
  obtain ⟨t, as, rfl, ht, hname, hposition, -⟩ := tableRef_eq_some hx
  obtain ⟨xs, rfl, hxs, hmore⟩ := many_again repeats_tables source htables
  obtain ⟨xs', rfl, hxs', hjoins⟩ := many_again repeats_joins source hmany
  refine ⟨⟨bs, l, t, as, .inl (kind_of_isKeyword hl), ht⟩ :: (xs ++ xs'), zs, ?_, ?_, ?_⟩
  · simp [Phrase.tokens]
  · refine .cons ⟨hname, hposition⟩ (List.rel_append ?_ hxs')
    rwa [List.map_id] at hxs
  rintro source' f ys rest' hys hrest
  cases hys with
  | @cons _ q _ ys hq hys =>
  obtain ⟨bs', l', t', as', hl', ht'⟩ := q
  obtain ⟨hbs, hlead, hname', has⟩ := hq
  obtain ⟨ys, ys', rfl, hxy, hxy'⟩ := exists_of_forall₂_append hys
  have hphrases : ∀ {xs ys : List Phrase}, Forall₂ (Phrase.Like f) xs ys →
      Forall₂ Similar (xs.flatMap Phrase.tokens) (ys.flatMap Phrase.tokens) := fun h =>
    List.rel_flatMap h fun _ _ => Phrase.Like.similar
  have hzs : Forall₂ Similar zs rest' := hrest.imp fun _ _ => .alike
  have hus := List.rel_append (hphrases hxy') hzs
  obtain ⟨y, hy, hyname, hyalias⟩ := tableRef_again hx ht' has
    (List.rel_append (hphrases hxy) hus)
  obtain ⟨more', hmany', hmore'⟩ := hmore source' f ys _ hxy hus
  obtain ⟨js', hjoins', hjs'⟩ := hjoins source' f ys' rest' hxy' hzs
  obtain ⟨v, hv, hlike⟩ := whereSpans_like hrest hw
  refine ⟨bs', l', t' :: (as' ++ (ys.flatMap Phrase.tokens ++ (ys'.flatMap Phrase.tokens ++ rest'))),
    ⟨y :: more' ++ js'.map (·.table), js', predicatesFrom source' 0 v.spans, v.usesOr,
      tail source' v.rest⟩, ?_, hbs, hlead, ?_, ?_, ?_, ?_⟩
  · simp [Phrase.tokens]
  · have hlist' : tableList .select (t' :: (as' ++ (ys.flatMap Phrase.tokens ++
        (ys'.flatMap Phrase.tokens ++ rest')))) =
          some (y :: more', ys'.flatMap Phrase.tokens ++ rest') := by
      simp only [tableList, Option.bind_eq_bind, hy, Option.bind_some, hmany', reduceCtorEq,
        if_false]
    simp only [readTables, hlist', hjoins', reduceCtorEq, if_false, readConditions, hv]
    rfl
  · refine .cons ⟨hyname.trans (hname'.trans (congrArg f hname.symm)), hyalias⟩ ?_
    rw [List.map_id, List.map_id] at hmore'
    exact List.rel_append hmore' hjs'
  · exact predicatesFrom_like hlike.spans 0
  · exact hlike.usesOr

/-- The tokens in front of the first `FROM` are skipped wherever they stand. -/
theorem skipToFrom_again {depth : Nat} (h : skipToFrom depth ts = .ok (some rest)) :
    ∃ as l, ts = as ++ l :: rest ∧ l.isKeyword "FROM" = true ∧ ∀ as' l' rest',
      Forall₂ Token.Alike as as' → l.Alike l' →
        skipToFrom depth (as' ++ l' :: rest') = .ok (some rest') := by
  induction ts generalizing depth with
  | nil => cases h
  | cons t ts ih =>
    -- any token but the `FROM` is skipped in both lists
    have later : ∀ {deep : Nat}, skipToFrom deep ts = .ok (some rest) →
        (∀ t' us, t.Alike t' → skipToFrom depth (t' :: us) = skipToFrom deep us) →
        ∃ as l, t :: ts = as ++ l :: rest ∧ l.isKeyword "FROM" = true ∧ ∀ as' l' rest',
          Forall₂ Token.Alike as as' → l.Alike l' →
            skipToFrom depth (as' ++ l' :: rest') = .ok (some rest') := by
      intro deep hdeep hskip
      obtain ⟨as, l, rfl, hl, hagain⟩ := ih hdeep
      refine ⟨t :: as, l, rfl, hl, ?_⟩
      rintro _ l' rest' (_ | ⟨ht, has⟩) hl'
      rw [List.cons_append, hskip _ _ ht]
      exact hagain _ l' rest' has hl'
    unfold skipToFrom at h
    split at h
    · cases h
    rename_i hselect
    split at h
    · rename_i hopen
      refine later h ?_
      rintro _ us ⟨kind, text, start, start'⟩
      exact (if_neg hselect).trans (if_pos hopen)
    rename_i hopen
    split at h
    · rename_i hclose
      refine later h ?_
      rintro _ us ⟨kind, text, start, start'⟩
      exact (if_neg hselect).trans ((if_neg hopen).trans (if_pos hclose))
    rename_i hclose
    split at h
    · rename_i hfrom
      cases h
      refine ⟨[], t, rfl, hfrom.2, ?_⟩
      rintro _ _ rest' ⟨⟩ ⟨kind, text, start, start'⟩
      exact (if_neg hselect).trans ((if_neg hopen).trans ((if_neg hclose).trans (if_pos hfrom)))
    · rename_i hfrom
      refine later h ?_
      rintro _ us ⟨kind, text, start, start'⟩
      exact (if_neg hselect).trans ((if_neg hopen).trans ((if_neg hclose).trans (if_neg hfrom)))

end Statements

end TypedMirror.Grammar

namespace TypedMirror.Query

open List (Forall₂)
open Grammar (Phrase Renamed)

/-- A read of tables is made of phrases with their names.  Under other names they are read again, in
any query, with the same aliases and the same predicates. -/
theorem parse_again {query : Text} {q : Query} (h : Query.parse query = .ok q)
    (hselect : q.operation = some .select) (htables : q.tables ≠ []) :
    ∃ (xs : List Phrase) (rest : List Token),
      Token.read (Deflated.ofQuery query).query = xs.flatMap Phrase.tokens ++ rest ∧
      Forall₂ Phrase.Names xs q.tables ∧ ∀ query' f ys rest', Forall₂ (Phrase.Like f) xs ys →
        Forall₂ Token.Alike rest rest' →
        Token.read (Deflated.ofQuery query').query = ys.flatMap Phrase.tokens ++ rest' →
        ∃ q', Query.parse query' = .ok q' ∧ Forall₂ (Renamed f) q.tables q'.tables ∧
          Forall₂ Grammar.Predicate.Like q.predicates q'.predicates ∧ q.usesOr = q'.usesOr ∧
          q'.literals = (Deflated.ofQuery query').literals := by
  rcases Query.parse_eq_ok h with ⟨-, rfl⟩ | ⟨op, after, r, hop, hr, rfl⟩
  · cases hselect
  obtain rfl := Option.some.inj hselect
  obtain ⟨first, htokens, hfirst⟩ := Grammar.exists_select hop
  rcases Grammar.readStatement_eq_ok hr with ⟨-, -, rfl⟩ | ⟨-, behind, hskip, hread⟩ | ⟨hop, -⟩
  · exact absurd rfl htables
  · obtain ⟨as, l, rfl, hl, hskipped⟩ := Grammar.skipToFrom_again hskip
    obtain ⟨xs, rest, hxs, hnames, hagain⟩ :=
      Grammar.readTables_again hread htables (first :: as) hl
    refine ⟨xs, rest, htokens.trans hxs, hnames, ?_⟩
    intro query' f ys rest' hys hrest htokens'
    obtain ⟨bs', l', ts', r', hsplit, hbs, hl', hread', hlike⟩ :=
      hagain (Deflated.ofQuery query').query f ys rest' hys hrest
    cases hbs with
    | @cons _ first' _ as' hf has =>
    have hop' : Grammar.operation? (first' :: (as' ++ l' :: ts')) =
        some (.select, as' ++ l' :: ts') := by
      cases hf
      exact if_pos hfirst
    have hstatement : Grammar.readStatement (Deflated.ofQuery query').query .select
        (as' ++ l' :: ts') = .ok r' := by
      rw [Grammar.readStatement, if_neg (by decide), hskipped as' l' ts' has hl']
      exact hread'
    refine ⟨⟨some .select, r'.tables, r'.joins, r'.predicates, r'.usesOr,
      (Deflated.ofQuery query').literals,
      splice 0 (Deflated.ofQuery query').query (edits r'),
      Grammar.isFinished r'.rest &&
        !(Token.read (Deflated.ofQuery query').query).any (·.kind = .comment)⟩, ?_,
      hlike.tables, hlike.predicates, hlike.usesOr, rfl⟩
    unfold Query.parse
    dsimp only
    rw [htokens', hsplit, List.cons_append, hop']
    dsimp only
    rw [hstatement]
    rfl
  · cases hop

end TypedMirror.Query
