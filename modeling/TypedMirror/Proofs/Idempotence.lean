import TypedMirror.Proofs.Registration
import TypedMirror.Proofs.Renaming.Rendered
import TypedMirror.Proofs.Separators

/-!
# Redirecting twice

A query that has been redirected reads from the mirrors what it read from their sources.  It is read
again with the same clauses, so a table that was left where it is cannot be routed the second time.

* `Mirror.Defined` — mirrors over any catalog, and what their names are;
* `choose_eq` — a table that keeps its name has the mirror it had;
* `apply_apply` — redirecting a query a second time changes nothing;
* `redirected_twice` — a query that is changed once more.
-/

namespace TypedMirror

open List (Forall₂)

/-! ## Names of mirrors -/

/-- A mirror that was defined over some catalog, and had keys added to it. -/
inductive Mirror.Defined : Mirror → Prop
  | define {c : Catalog} {source : Text} {t : ValueType} {args : List Nat} {m : Mirror}
    (h : Mirror.define c source t args = .ok m) : Mirror.Defined m
  | addKey {m m' : Mirror} {pattern : Text} (h : Mirror.Defined m)
    (hadd : m.addKey pattern = .ok m') : Mirror.Defined m'

theorem Registered.defined {c : Catalog} {s : Setup} (h : Registered c s) :
    ∀ m ∈ s.mirrors, m.Defined := by
  refine h.of_read ?_ .addKey
  intro source type args m hread
  obtain ⟨t, -, hdefine⟩ := Mirror.read_eq_ok hread
  exact .define hdefine

section Names

variable {n : Text} {m : Mirror}

theorem Text.IsWord.of_validate {u : Unit} (h : Identifier.validate n = .ok u) : n.IsWord := by
  unfold Identifier.validate at h
  split at h
  · rename_i hvalid
    unfold Identifier.isValid at hvalid
    rw [Bool.and_eq_true, Bool.not_eq_true', List.all_eq_true] at hvalid
    exact ⟨by simpa using hvalid.1, hvalid.2⟩
  · cases h

/-- No reserved word and no number holds an underscore. -/
theorem Text.IsName.of_mem (hn : n.IsWord) (h : '_' ∈ n) : n.IsName := by
  refine ⟨hn, ?_, ?_⟩
  · exact List.all_eq_false.2 ⟨'_', h, by decide⟩
  · refine List.any_eq_false.2 ?_
    intro word hword hkeyword
    have hlower : ∀ word ∈ Grammar.reserved, '_' ∉ Text.lower word.toList := by decide
    have hsame : Text.lower n = Text.lower word.toList := by
      simpa [Token.isKeyword, Text.sameIgnoringCase] using hkeyword
    refine hlower word hword ?_
    rw [← hsame]
    exact List.mem_map.2 ⟨'_', h, rfl⟩

theorem Text.IsWord.of_forM_validate {ns : List Text} {u : Unit}
    (h : ns.forM Identifier.validate = .ok u) : ∀ n ∈ ns, n.IsWord := by
  induction ns with
  | nil => simp
  | cons n ns ih =>
    rw [List.forM] at h
    obtain ⟨_, hn, hns⟩ := bind_eq_ok.1 h
    exact List.forall_mem_cons.2 ⟨.of_validate hn, ih hns⟩

theorem Mirror.Defined.names (h : m.Defined) :
    (∀ n ∈ m.source :: m.columns, n.IsWord) ∧ m.id.IsName := by
  induction h with
  | @define c source t args m h =>
    unfold Mirror.define at h
    split at h
    · cases h
    obtain ⟨_, hnames, h⟩ := bind_eq_ok.1 h
    obtain ⟨_, hid, h⟩ := bind_eq_ok.1 h
    cases h
    refine ⟨.of_forM_validate hnames, .of_mem (.of_validate hid) ?_⟩
    simp [Mirror.nameFor]
  | addKey _ hadd ih =>
    rw [Mirror.addKey_eq_ok hadd]
    exact ih

end Names

namespace Routing

variable {mirrors : List Mirror} {q q' : Query} {f : Text → Text} {s : Text}

/-! ## What makes a mirror eligible -/

section Choice

theorem map_eq_of_forall₂ {α β γ : Type} {R : α → β → Prop} {as : List α} {bs : List β}
    (h : Forall₂ R as bs) {g : α → γ} {g' : β → γ} (hg : ∀ a b, R a b → g a = g' b) :
    as.map g = bs.map g' := by
  induction h with
  | nil => rfl
  | cons hab _ ih => rw [List.map_cons, List.map_cons, ih, hg _ _ hab]

variable (h : q.Like f q')

include h

theorem plainLiteral?_eq : plainLiteral? q = plainLiteral? q' := by
  funext id
  have hliteral : q.literal? id = q'.literal? id := by
    cases id with
    | zero => rfl
    | succ id =>
      show q.literals[id]? = q'.literals[id]?
      rw [h.literals]
  unfold plainLiteral?
  rw [hliteral]

theorem isPredicateClaimed_eq {p p' : Predicate} (hp : Grammar.Predicate.Like p p') (m : Mirror)
    (earlier : List Mirror) :
    isPredicateClaimed q p m earlier = isPredicateClaimed q' p' m earlier := by
  unfold isPredicateClaimed
  rw [plainLiteral?_eq h, hp.operator]
  have hoperand := hp.operand
  generalize p.operand = o at hoperand
  generalize p'.operand = o' at hoperand
  cases hoperand with
  | same => rfl
  | other a b => cases p'.operator <;> rfl

theorem covers_eq {t t' : TableRef} (hkey : t.key = t'.key) (m : Mirror) (earlier : List Mirror) :
    covers q m earlier t = covers q' m earlier t' := by
  have hpredicates : (q.predicates.map fun p =>
        isKeyPredicate q p m t && isPredicateClaimed q p m earlier) =
      q'.predicates.map fun p => isKeyPredicate q' p m t' && isPredicateClaimed q' p m earlier := by
    refine map_eq_of_forall₂ h.predicates ?_
    intro p p' hp
    rw [isPredicateClaimed_eq h hp]
    unfold isKeyPredicate
    rw [hp.name, hp.qualifier, hkey, h.tables.length_eq]
  have hany := congrArg (List.any · id) hpredicates
  simp only [List.any_map] at hany
  unfold covers
  rw [h.usesOr]
  exact congrArg _ (congrArg _ hany)

theorem eligible_eq {refs refs' : List TableRef}
    (hrefs : Forall₂ (fun t t' => t.key = t'.key) refs refs') (earlier ms : List Mirror) :
    eligible q refs earlier ms = eligible q' refs' earlier ms := by
  induction ms generalizing earlier with
  | nil => rfl
  | cons m ms ih =>
    have hall : refs.all (covers q m earlier) = refs'.all (covers q' m earlier) := by
      have hcovers := map_eq_of_forall₂ hrefs fun t t' hkey => covers_eq h hkey m earlier
      have := congrArg (List.all · id) hcovers
      simpa only [List.all_map, Function.id_comp] using this
    rw [eligible, eligible, hall, ih]

omit h in
/-- The occurrences of a table that keeps its name have the keys that they had. -/
theorem key_references {ts ts' : List TableRef} (h : Forall₂ (Grammar.Renamed f) ts ts')
    (hs : ∀ x ∈ ts, f x.name = s ↔ x.name = s) : Forall₂ (fun t t' => t.key = t'.key)
      (ts.filter (·.name == s)) (ts'.filter (·.name == s)) := by
  induction h with
  | nil => exact .nil
  | @cons x y ts ts' hxy _ ih =>
    have hrest := ih fun z hz => hs z (List.mem_cons_of_mem x hz)
    have hx := hs x List.mem_cons_self
    rw [← hxy.name] at hx
    by_cases hname : x.name = s
    · rw [List.filter_cons_of_pos (by simpa using hname),
        List.filter_cons_of_pos (by simpa using hx.2 hname)]
      refine .cons ?_ hrest
      unfold TableRef.key
      rw [hxy.aliasName, hx.2 hname, hname]
    · rw [List.filter_cons_of_neg (by simpa using hname),
        List.filter_cons_of_neg (by simpa using fun hy => hname (hx.1 hy))]
      exact hrest

/-- A table that keeps its name, and whose name no other gets, has the mirror it had. -/
theorem choose_eq (hs : ∀ x ∈ q.tables, f x.name = s ↔ x.name = s) :
    choose mirrors q s = choose mirrors q' s := by
  have hrefs : Forall₂ (fun t t' => t.key = t'.key) (q.references s) (q'.references s) :=
    key_references h.tables hs
  unfold choose
  rw [eligible_eq h hrefs]

theorem exists_of_references (hrefs : q'.references s ≠ []) : ∃ x ∈ q.tables, f x.name = s := by
  obtain ⟨y, hy⟩ := List.exists_mem_of_ne_nil _ hrefs
  obtain ⟨hy, hname⟩ := List.mem_filter.1 hy
  have hnames : q.tables.map (f ·.name) = q'.tables.map (·.name) :=
    map_eq_of_forall₂ h.tables fun x y hxy => hxy.name.symm
  have hmem : y.name ∈ q'.tables.map (·.name) := List.mem_map_of_mem hy
  rw [← hnames] at hmem
  obtain ⟨x, hx, hxy⟩ := List.mem_map.1 hmem
  exact ⟨x, hx, hxy.trans (eq_of_beq hname)⟩

end Choice

/-! ## Routes -/

section Routes

theorem mem_of_choose {m : Mirror} (h : choose mirrors q s = some m) :
    m ∈ mirrors ∧ m.source = s := by
  have hmem : ∀ {refs : List TableRef} {earlier ms : List Mirror},
      m ∈ eligible q refs earlier ms → m ∈ ms := by
    intro refs earlier ms hm
    induction ms generalizing earlier with
    | nil => cases hm
    | cons x ms ih =>
      rw [eligible] at hm
      split at hm
      · exact List.mem_cons.2 ((List.mem_cons.1 hm).imp_right ih)
      · exact List.mem_cons_of_mem x (ih hm)
  obtain ⟨hm, hsource⟩ := List.mem_filter.1 (hmem (mem_eligible_of_choose h))
  exact ⟨hm, eq_of_beq hsource⟩

/-- A name is that of a routed table and leads to its mirror, or is kept. -/
theorem redirect_cases (routes : List Route) (n : Text) :
    (∃ route ∈ routes, route.source = n ∧ redirect routes n = route.mirror) ∨
      (∀ route ∈ routes, route.source ≠ n) ∧ redirect routes n = n := by
  unfold redirect
  cases hfind : routes.find? (·.source == n) with
  | none =>
    refine .inr ⟨?_, rfl⟩
    intro route hroute
    simpa using List.find?_eq_none.1 hfind route hroute
  | some route =>
    have hsource := List.find?_some hfind
    exact .inl ⟨route, List.mem_of_find?_eq_some hfind, eq_of_beq hsource, rfl⟩

/-- A name that is redirected is a word, and so is that of its mirror. -/
theorem renames_redirect (hdefined : ∀ m ∈ mirrors, m.Defined) (q : Query) :
    q.Renames (redirect (routesOf mirrors q)) := by
  intro x _
  rcases redirect_cases (routesOf mirrors q) x.name with ⟨route, hroute, hname, hmirror⟩ | hkept
  · obtain ⟨-, -, m, hm, hid⟩ := mem_routesOf.1 hroute
    obtain ⟨hmem, hsource⟩ := mem_of_choose hm
    obtain ⟨hwords, hisName⟩ := (hdefined m hmem).names
    have hword := hwords m.source List.mem_cons_self
    rw [hsource, hname] at hword
    rw [hid, ← hmirror] at hisName
    exact .inr ⟨hword, hisName⟩
  · exact .inl hkept.2

/-- No table is routed that has been left where it was, nor is a mirror. -/
theorem routesOf_eq_nil (hsources : ∀ m ∈ mirrors, m.id ∉ Registry.sourcesOf mirrors)
    (h : q.Like (redirect (routesOf mirrors q)) q') : routesOf mirrors q' = [] := by
  rw [List.eq_nil_iff_forall_not_mem]
  intro route hroute
  obtain ⟨hsource, hrefs, m, hchoose, -⟩ := mem_routesOf.1 hroute
  -- a name that is redirected gets that of a mirror, which is no source
  have hredirect : ∀ n, redirect (routesOf mirrors q) n = route.source →
      (∀ r ∈ routesOf mirrors q, r.source ≠ n) ∧ n = route.source := by
    intro n hn
    rcases redirect_cases (routesOf mirrors q) n with ⟨r, hr, -, hmirror⟩ | ⟨hkept, hsame⟩
    · obtain ⟨-, -, x, hx, hid⟩ := mem_routesOf.1 hr
      rw [hn, ← hid] at hmirror
      exact absurd (hmirror ▸ hsource) (hsources x (mem_of_choose hx).1)
    · exact ⟨hkept, hsame.symm.trans hn⟩
  -- so the table was read the first time, and was left where it was
  obtain ⟨x, hx, hname⟩ := exists_of_references h hrefs
  obtain ⟨hkept, hsame⟩ := hredirect x.name hname
  rw [hsame] at hkept
  have hs : ∀ x ∈ q.tables,
      redirect (routesOf mirrors q) x.name = route.source ↔ x.name = route.source := by
    intro y hy
    refine ⟨fun hy => (hredirect y.name hy).2, ?_⟩
    intro hy
    rw [hy, ← hsame, hname]
    exact hsame.symm
  rw [← choose_eq h hs] at hchoose
  have hmem : (⟨route.source, m.id⟩ : Route) ∈ routesOf mirrors q := by
    refine mem_routesOf.2 ⟨hsource, ?_, m, hchoose, rfl⟩
    exact List.ne_nil_of_mem (List.mem_filter.2 ⟨hx, by simpa using hsame⟩)
  exact hkept _ hmem rfl

end Routes

/-! ## The second time -/

section Second

variable {query : Text} (hdefined : ∀ m ∈ mirrors, m.Defined)
  (hplain : (decision mirrors query).routes ≠ [] → ∀ q, Query.parse query = .ok q → q.PlainColumns)

include hdefined hplain

/-- A query that is redirected is read again, with the names of the mirrors. -/
theorem parse_apply (hroutes : (decision mirrors query).routes ≠ []) :
    ∃ q q', Query.parse query = .ok q ∧ Query.parse (apply mirrors query) = .ok q' ∧
      (decision mirrors query).routes = routesOf mirrors q ∧
      q.Like (redirect (routesOf mirrors q)) q' := by
  obtain ⟨q, hq, hparsed, hselect, -, hdecision⟩ := decision_of_routes hroutes
  have hroutesOf : (decision mirrors query).routes = routesOf mirrors q := by rw [hdecision]
  have happly : apply mirrors query = q.render (redirect (routesOf mirrors q)) := by
    unfold apply
    rw [hdecision]
  obtain ⟨q', hq', hlike⟩ := Query.parse_render hq hselect hparsed
    (tables_ne_nil (hroutesOf ▸ hroutes)) (hplain hroutes q hq) (renames_redirect hdefined q)
  exact ⟨q, q', hq, happly ▸ hq', hroutesOf, hlike⟩

theorem routes_apply (hsources : ∀ m ∈ mirrors, m.id ∉ Registry.sourcesOf mirrors) :
    (decision mirrors (apply mirrors query)).routes = [] := by
  by_cases hroutes : (decision mirrors query).routes = []
  · rw [apply_of_no_routes hroutes, hroutes]
  obtain ⟨q, q', -, hq', -, hlike⟩ := parse_apply hdefined hplain hroutes
  by_contra hagain
  obtain ⟨q'', hq'', -, -, -, hdecision⟩ := decision_of_routes hagain
  obtain rfl : q' = q'' := Except.ok.inj (hq'.symm.trans hq'')
  rw [hdecision, routesOf_eq_nil hsources hlike] at hagain
  exact hagain rfl

end Second

/-- Redirecting a query that has been redirected changes nothing, unless the first time went wrong:
where closing brackets stand in a column of a predicate.  No table is routed the second time, though
the query is read as it was, each routed table under the name of its mirror. -/
theorem apply_apply (hdefined : ∀ m ∈ mirrors, m.Defined)
    (hsources : ∀ m ∈ mirrors, m.id ∉ Registry.sourcesOf mirrors) {query : Text}
    (hplain : (decision mirrors query).routes ≠ [] →
      ∀ q, Query.parse query = .ok q → q.PlainColumns) :
    apply mirrors (apply mirrors query) = apply mirrors query ∧
      (decision mirrors (apply mirrors query)).routes = [] ∧
      ((decision mirrors query).routes ≠ [] → ∃ q q', Query.parse query = .ok q ∧
        Query.parse (apply mirrors query) = .ok q' ∧
        q.Like (redirect (decision mirrors query).routes) q') := by
  have hnone := routes_apply hdefined hplain hsources
  refine ⟨apply_of_no_routes hnone, hnone, ?_⟩
  intro hroutes
  obtain ⟨q, q', hq, hq', hroutesOf, hlike⟩ := parse_apply hdefined hplain hroutes
  exact ⟨q, q', hq, hq', hroutesOf ▸ hlike⟩

/-- A mirror of how users are greeted. -/
def greetings : Mirror where
  id := "wp_usermeta_mm_varchar_16".toList
  source := "wp_usermeta".toList
  idColumn := "umeta_id".toList
  objectColumn := "user_id".toList
  keyColumn := "meta_key".toList
  valueColumn := "meta_value".toList
  valueType := .varchar
  typeArgs := [16]
  whitelist := ["hello".toList]

theorem defined_of_mem {m : Mirror} (h : m ∈ [postmeta, greetings]) : m.Defined := by
  have hpostmeta : Mirror.define .standard "wp_postmeta".toList .varchar [16] = .ok postmeta := by
    decide +kernel
  have husermeta : Mirror.define .standard "wp_usermeta".toList .varchar [16] =
      .ok { greetings with whitelist := [] } := by decide +kernel
  have hkey : Mirror.addKey { greetings with whitelist := [] } "hello".toList = .ok greetings := by
    decide +kernel
  rcases List.mem_pair.1 h with rfl | rfl
  · exact .define hpostmeta
  · exact .addKey (.define husermeta) hkey

/-- One table is routed, and the other keeps its name both times. -/
theorem apply_apply_sample :
    let mirrors := [postmeta, greetings]
    let query := "SELECT * FROM wp_postmeta p, `wp_usermeta` u WHERE u.meta_key = 'bye'".toList
    apply mirrors query ≠ query ∧ apply mirrors (apply mirrors query) = apply mirrors query ∧
      (decision mirrors (apply mirrors query)).routes = [] := by
  intro mirrors query
  have hcolumns : ∀ q ∈ (Query.parse query).toOption, q.PlainColumns := by decide +kernel
  have hplain : (decision mirrors query).routes ≠ [] →
      ∀ q, Query.parse query = .ok q → q.PlainColumns := by
    intro _ q hq
    exact hcolumns q (by rw [hq]; rfl)
  obtain ⟨hsame, hnone, -⟩ := apply_apply (fun m => defined_of_mem) (by decide +kernel) hplain
  exact ⟨by decide +kernel, hsame, hnone⟩

/-- A column comes back in another place, and closes the quote that was open: the second time the key
is compared to a literal of its own. -/
theorem redirected_twice :
    let mirrors := [postmeta, greetings]
    let query :=
      "SELECT * FROM wp_postmeta, wp_usermeta u WHERE u.`'\\]]\\'` = 1 AND u.meta_key = \"hello\"".toList
    let once := ("SELECT * FROM wp_postmeta_mm_varchar_16, wp_usermeta u WHERE ".toList
      ++ "u.`'\\\\'`]] = 1 AND u.meta_key = \"hello\"".toList)
    let twice := ("SELECT * FROM wp_postmeta_mm_varchar_16, wp_usermeta_mm_varchar_16 u WHERE ".toList
      ++ "u.`'\\\\'`]] = 1 AND u.meta_key = \"hello\"".toList)
    (∀ m ∈ mirrors, m.Defined) ∧ (∀ m ∈ mirrors, m.id ∉ Registry.sourcesOf mirrors) ∧
      apply mirrors query = once ∧ apply mirrors once = twice ∧
      apply mirrors (apply mirrors query) ≠ apply mirrors query := by
  intro mirrors query once twice
  have honce : apply mirrors query = once := by decide +kernel
  have htwice : apply mirrors once = twice := by decide +kernel
  refine ⟨fun m => defined_of_mem, by decide +kernel, honce, htwice, ?_⟩
  rw [honce, htwice]
  decide

end Routing

end TypedMirror
