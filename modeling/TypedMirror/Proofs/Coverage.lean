import TypedMirror.Proofs.Matching
import TypedMirror.Proofs.Ownership
import TypedMirror.Routing

/-!
# Routes agree with ownership

A query is only sent to a whitelisted mirror if a predicate of it keeps to keys that the mirror owns.
Whether the store tells the case of letters apart makes no difference.

* `takes_of_isPredicateClaimed` — the keys that a claimed predicate selects go to the mirror;
* `covers_of_mem_eligible` — the mirrors that a choice was made from cover the query;
* `owner_of_route` — the keys that a routed query can select are owned by the mirror it is sent to.
-/

namespace TypedMirror

/-! ## Keys that a predicate selects -/

/-- How a store compares texts. -/
inductive Collation
  | binary
  /-- The case of ASCII letters makes no difference. -/
  | ignoringCase
deriving DecidableEq, Repr

namespace Collation

def same : Collation → Text → Text → Bool
  | .binary, a, b => a = b
  | .ignoringCase, a, b => Text.sameIgnoringCase a b

/-- Whether a value matches a pattern. -/
def like : Collation → Text → Text → Bool
  | .binary, value, pattern => KeyPattern.matchesExactly pattern value
  | .ignoringCase, value, pattern => KeyPattern.matchesIgnoringCase pattern value

/-- What matches with its case also matches in every other way of comparing. -/
theorem like_of_same {c : Collation} {a b pattern : Text} (hs : c.same a b = true)
    (h : KeyPattern.matchesExactly pattern b = true) : c.like a pattern = true := by
  cases c with
  | binary =>
    obtain rfl : a = b := by simpa [same] using hs
    exact h
  | ignoringCase =>
    have hab : Text.lower a = Text.lower b := eq_of_beq hs
    have hb := KeyPattern.matchesIgnoringCase_of_exactly h
    unfold KeyPattern.matchesIgnoringCase at hb
    show KeyPattern.matchesExactly (Text.lower pattern) (Text.lower a) = true
    rw [hab]
    exact hb

/-- What does not match without its case does not match in any way of comparing. -/
theorem not_like_of_same {c : Collation} {a b pattern : Text} (hs : c.same a b = true)
    (h : KeyPattern.matchesIgnoringCase pattern b = false) : c.like a pattern = false := by
  rw [← Bool.not_eq_true] at h ⊢
  intro hl
  apply h
  cases c with
  | binary =>
    obtain rfl : a = b := by simpa [same] using hs
    exact KeyPattern.matchesIgnoringCase_of_exactly hl
  | ignoringCase =>
    have hab : Text.lower a = Text.lower b := eq_of_beq hs
    show KeyPattern.matchesExactly (Text.lower pattern) (Text.lower b) = true
    rw [← hab]
    exact hl

/-- A pattern without special characters matches what is the same text. -/
theorem same_of_like_plain {c : Collation} {value pattern : Text} (hcover : '\\' ∉ pattern)
    (hwild : KeyPattern.hasWildcards pattern = false) (h : c.like value pattern = true) :
    c.same value pattern = true := by
  cases c with
  | binary => simpa [same] using (KeyPattern.matchesExactly_plain hcover hwild).1 h
  | ignoringCase => simpa [same, Text.sameIgnoringCase] using
      (KeyPattern.matchesIgnoringCase_plain hcover hwild).1 h

end Collation

/-- Whether a row with a key can meet the predicate.  Nothing is said of a key by predicates of other
shapes, nor by those whose literal is not known. -/
def Predicate.Selects (q : Query) (c : Collation) (p : Predicate) (key : Text) : Prop :=
  match p.operator, p.operand with
  | .eq, .literal id | .nullSafeEq, .literal id =>
    ∀ value, q.literal? id = some value → c.same key value
  | .like, .literal id => ∀ value, q.literal? id = some value → c.like key value
  | .isIn, .literals ids => ∃ id ∈ ids, ∀ value, q.literal? id = some value → c.same key value
  | _, _ => True

namespace Routing

variable {q : Query} {p : Predicate} {m : Mirror} {earlier : List Mirror} {value key : Text}
  {c : Collation}

/-- The key goes to the mirror, and to none of the others. -/
def Takes (c : Collation) (m : Mirror) (earlier : List Mirror) (key : Text) : Prop :=
  m.takes c.like key = true ∧ ∀ e ∈ earlier, e.takes c.like key = false

theorem takes_of_isClaimed (h : isClaimed m earlier value = true) (hs : c.same key value = true) :
    Takes c m earlier key := by
  unfold isClaimed at h
  rw [Bool.and_eq_true, Bool.not_eq_true', List.any_eq_false] at h
  obtain ⟨hown, hearlier⟩ := h
  refine ⟨?_, ?_⟩
  · obtain ⟨pattern, hp, hmatch⟩ := List.any_eq_true.1 hown
    exact List.any_eq_true.2 ⟨pattern, hp, Collation.like_of_same hs hmatch⟩
  · intro e he
    have hno := hearlier e he
    unfold mayClaim at hno
    rw [Bool.not_eq_true, List.any_eq_false] at hno
    apply List.any_eq_false.2
    intro pattern hp
    have hpat := hno pattern hp
    rw [Bool.not_eq_true, Bool.or_eq_false_iff] at hpat
    rw [Bool.not_eq_true]
    exact Collation.not_like_of_same hs hpat.2

theorem plainLiteral?_eq_some {id : Nat} {test : Text → Bool}
    (h : (plainLiteral? q id).any test = true) :
    ∃ value, q.literal? id = some value ∧ '\\' ∉ value ∧ test value = true := by
  obtain ⟨value, hv, ht⟩ := (Option.any_eq_true _ _).1 h
  obtain ⟨hv, hplain⟩ := Option.filter_eq_some_iff.1 hv
  exact ⟨value, hv, by simpa using hplain, ht⟩

theorem takes_of_isPredicateClaimed (h : isPredicateClaimed q p m earlier = true)
    (hk : p.Selects q c key) : Takes c m earlier key := by
  unfold isPredicateClaimed at h
  unfold Predicate.Selects at hk
  split at h
  · rename_i id hop hoperand
    rw [hop, hoperand] at hk
    obtain ⟨value, hv, -, hclaim⟩ := plainLiteral?_eq_some h
    exact takes_of_isClaimed hclaim (hk value hv)
  · rename_i id hop hoperand
    rw [hop, hoperand] at hk
    obtain ⟨value, hv, -, hclaim⟩ := plainLiteral?_eq_some h
    exact takes_of_isClaimed hclaim (hk value hv)
  · rename_i id hop hoperand
    rw [hop, hoperand] at hk
    obtain ⟨value, hv, hcover, hclaim⟩ := plainLiteral?_eq_some h
    have hlike : c.like key value = true := hk value hv
    split at hclaim
    · -- the pattern itself is whitelisted, and no other mirror is in front
      rw [Bool.and_eq_true, List.isEmpty_iff] at hclaim
      obtain ⟨rfl, hown⟩ := hclaim
      exact ⟨List.any_eq_true.2 ⟨value, List.contains_iff_mem.1 hown, hlike⟩, by simp⟩
    · rename_i hwild
      rw [Bool.not_eq_true] at hwild
      exact takes_of_isClaimed hclaim (Collation.same_of_like_plain hcover hwild hlike)
  · rename_i ids hop hoperand
    rw [hop, hoperand] at hk
    rw [Bool.and_eq_true, List.all_eq_true] at h
    obtain ⟨id, hid, hsame⟩ := hk
    obtain ⟨value, hv, -, hclaim⟩ := plainLiteral?_eq_some (h.2 id hid)
    exact takes_of_isClaimed hclaim (hsame value hv)
  · cases h

/-! ## Mirrors that cover a query -/

/-- The predicate is on the key column of this occurrence of the mirror's source. -/
def IsOn (q : Query) (p : Predicate) (m : Mirror) (t : TableRef) : Prop :=
  Text.sameIgnoringCase p.column.name m.keyColumn = true ∧
    (p.column.qualifier = some t.key ∨ p.column.qualifier = none ∧ q.tables = [t])

theorem isOn_of_isKeyPredicate {t : TableRef} (ht : t ∈ q.tables)
    (h : isKeyPredicate q p m t = true) : IsOn q p m t := by
  unfold isKeyPredicate at h
  rw [Bool.and_eq_true] at h
  refine ⟨h.1, ?_⟩
  cases hq : p.column.qualifier with
  | some qualifier =>
    rw [hq] at h
    exact .inl (congrArg some (eq_of_beq h.2))
  | none =>
    rw [hq] at h
    obtain ⟨x, hx⟩ := List.length_eq_one_iff.1 (eq_of_beq h.2)
    rw [hx, List.mem_singleton] at ht
    exact .inr ⟨rfl, ht ▸ hx⟩

/-- A query covered by a whitelisted mirror holds a predicate that keeps to keys of the mirror. -/
theorem exists_of_covers {t : TableRef} (hm : m.isUnfiltered = false) (ht : t ∈ q.tables)
    (h : covers q m earlier t = true) : q.usesOr = false ∧
      ∃ p ∈ q.predicates, IsOn q p m t ∧
        ∀ (c : Collation) key, p.Selects q c key → Takes c m earlier key := by
  unfold covers at h
  rw [hm, Bool.false_or, Bool.and_eq_true, Bool.not_eq_true'] at h
  obtain ⟨p, hp, hclaim⟩ := List.any_eq_true.1 h.2
  rw [Bool.and_eq_true] at hclaim
  exact ⟨h.1, p, hp, isOn_of_isKeyPredicate ht hclaim.1,
    fun c key hk => takes_of_isPredicateClaimed hclaim.2 hk⟩

/-- A mirror that is eligible covers the query, behind the whitelisted mirrors before it. -/
theorem covers_of_mem_eligible {refs : List TableRef} {ms : List Mirror}
    (hids : (ms.map (·.id)).Nodup) (h : m ∈ eligible q refs earlier ms) : m ∈ ms ∧
      ∀ t ∈ refs, covers q m (earlier ++ Plan.claimsBefore ms m) t = true := by
  induction ms generalizing earlier with
  | nil => cases h
  | cons x ms ih =>
    rw [List.map_cons, List.nodup_cons] at hids
    -- the mirror itself, or one further on
    have hcases : (m = x ∧ refs.all (covers q x earlier) = true) ∨
        m ∈ eligible q refs (if x.isUnfiltered then earlier else earlier ++ [x]) ms := by
      unfold eligible at h
      by_cases hx : refs.all (covers q x earlier) = true
      · rw [if_pos hx] at h
        exact (List.mem_cons.1 h).imp (fun hm => ⟨hm, hx⟩) fun hm => hm
      · rw [if_neg hx] at h
        exact .inr h
    rcases hcases with ⟨rfl, hall⟩ | hm
    · refine ⟨List.mem_cons_self, ?_⟩
      rw [Plan.claimsBefore, Mirror.before_cons_self, List.filter_nil, List.append_nil]
      exact List.all_eq_true.1 hall
    · obtain ⟨hmem, hcovers⟩ := ih hids.2 hm
      refine ⟨List.mem_cons_of_mem x hmem, ?_⟩
      have hbefore : earlier ++ Plan.claimsBefore (x :: ms) m =
          (if x.isUnfiltered then earlier else earlier ++ [x]) ++ Plan.claimsBefore ms m := by
        rw [Plan.claimsBefore, Mirror.before_cons_of_ne (Mirror.id_ne_of_mem hids.1 hmem)]
        cases hx : x.isUnfiltered with
        | true => simp [hx, Plan.claimsBefore]
        | false => simp [hx, Plan.claimsBefore]
      rw [hbefore]
      exact hcovers

/-! ## Routes -/

/-- A query stays as it is, or it is a read that was read to its end and is rendered with its routes;
then none of the routed tables is named outside its references. -/
theorem decision_cases (mirrors : List Mirror) (query : Text) :
    ((decision mirrors query).routes = [] ∧ (decision mirrors query).redirected = query) ∨
    ∃ q, Query.parse query = .ok q ∧ q.fullyParsed = true ∧ q.operation = some .select ∧
      routesOf mirrors q ≠ [] ∧
      (∀ r ∈ routesOf mirrors q, Text.mentions (withoutTables q) r.source = false) ∧
      decision mirrors query = ⟨query, q.render (redirect (routesOf mirrors q)), true,
        routesOf mirrors q, none⟩ := by
  unfold decision
  split
  · exact .inl ⟨rfl, rfl⟩
  split
  · exact .inl ⟨rfl, rfl⟩
  rename_i q hq
  split
  · exact .inl ⟨rfl, rfl⟩
  rename_i hparsed
  split
  · exact .inl ⟨rfl, rfl⟩
  rename_i hread
  unfold readDecision
  dsimp only
  split
  · exact .inl ⟨rfl, rfl⟩
  rename_i hroutes
  split
  · exact .inl ⟨rfl, rfl⟩
  rename_i hambiguous
  exact .inr ⟨q, hq, by simpa using hparsed, Decidable.not_not.1 hread, by simpa using hroutes,
    by simpa using hambiguous, rfl⟩

theorem decision_of_routes {mirrors : List Mirror} {query : Text}
    (h : (decision mirrors query).routes ≠ []) :
    ∃ q, Query.parse query = .ok q ∧ q.fullyParsed = true ∧ q.operation = some .select ∧
      (∀ r ∈ routesOf mirrors q, Text.mentions (withoutTables q) r.source = false) ∧
      decision mirrors query = ⟨query, q.render (redirect (routesOf mirrors q)), true,
        routesOf mirrors q, none⟩ := by
  rcases decision_cases mirrors query with ⟨hnil, -⟩ | ⟨q, hq, hparsed, hread, -, hdecision⟩
  · exact absurd hnil h
  · exact ⟨q, hq, hparsed, hread, hdecision⟩

theorem apply_of_no_routes {mirrors : List Mirror} {query : Text}
    (h : (decision mirrors query).routes = []) : apply mirrors query = query := by
  rcases decision_cases mirrors query with ⟨-, hsame⟩ | ⟨q, -, -, -, hroutes, -, hdecision⟩
  · exact hsame
  · rw [hdecision] at h
    exact absurd h hroutes

theorem parse_of_route {mirrors : List Mirror} {query : Text} {route : Route}
    (h : route ∈ (decision mirrors query).routes) :
    ∃ q, Query.parse query = .ok q ∧ q.operation = some .select ∧
      (decision mirrors query).routes = routesOf mirrors q ∧
      (decision mirrors query).redirected = q.render (redirect (routesOf mirrors q)) := by
  obtain ⟨q, hq, -, hread, -, hdecision⟩ := decision_of_routes (List.ne_nil_of_mem h)
  rw [hdecision]
  exact ⟨q, hq, hread, rfl, rfl⟩

theorem mem_routesOf {mirrors : List Mirror} {route : Route} : route ∈ routesOf mirrors q ↔
    route.source ∈ Registry.sourcesOf mirrors ∧ q.references route.source ≠ [] ∧
      ∃ m, choose mirrors q route.source = some m ∧ m.id = route.mirror := by
  unfold routesOf
  rw [List.mem_filterMap]
  constructor
  · rintro ⟨source, hsource, h⟩
    split at h
    · cases h
    · rename_i hrefs
      obtain ⟨m, hm, rfl⟩ := Option.map_eq_some_iff.1 h
      exact ⟨hsource, by simpa using hrefs, m, hm, rfl⟩
  · rintro ⟨hsource, hrefs, m, hm, hid⟩
    refine ⟨route.source, hsource, ?_⟩
    rw [if_neg (by simpa using hrefs), hm, Option.map_some, hid]

theorem tables_ne_nil {mirrors : List Mirror} (h : routesOf mirrors q ≠ []) : q.tables ≠ [] := by
  obtain ⟨route, hroute⟩ := List.exists_mem_of_ne_nil _ h
  obtain ⟨-, hrefs, -⟩ := mem_routesOf.1 hroute
  intro hnil
  rw [Query.references, hnil] at hrefs
  exact hrefs rfl

theorem mem_eligible_of_choose {mirrors : List Mirror} {source : Text}
    (h : choose mirrors q source = some m) :
    m ∈ eligible q (q.references source) [] (mirrors.filter (·.source == source)) := by
  unfold choose at h
  split at h
  · rename_i x hx
    cases h
    exact hx ▸ List.mem_singleton_self m
  · cases h

/-- A route leads from a source that the query reads to an eligible mirror. -/
theorem mem_eligible_of_route {mirrors : List Mirror} {route : Route}
    (h : route ∈ routesOf mirrors q) : q.references route.source ≠ [] ∧ ∃ m, m.id = route.mirror ∧
      m ∈ eligible q (q.references route.source) [] (mirrors.filter (·.source == route.source)) := by
  obtain ⟨-, hrefs, m, hm, hid⟩ := mem_routesOf.1 h
  exact ⟨hrefs, m, hid, mem_eligible_of_choose hm⟩

/-- The mirrors that take a key are told apart by their conditions: only that of the owner holds. -/
theorem holds_iff_of_takes {r : Registry} {source : Text} (hids : (r.mirrors.map (·.id)).Nodup)
    (hcolumns : ∀ x ∈ r.mirrorsFor source, ∀ y ∈ r.mirrorsFor source, x.keyColumn = y.keyColumn)
    (hm : m ∈ r.mirrorsFor source) (hun : m.isUnfiltered = false)
    (htakes : Takes c m (Plan.claimsBefore (r.mirrorsFor source) m) key) :
    Mirror.owner? c.like (r.mirrorsFor source) (some key) = some m ∧
      ∀ e ∈ r.mirrorsFor source, ∀ row condition,
        Plan.claimCondition e (Plan.earlierClaims r e) row = some condition →
          ∀ s : Sql.Scope Text, s.cell ⟨row, e.keyColumn⟩ = some key →
            (condition.holds c.like s = true ↔ e = m) := by
  have hids' : ((r.mirrorsFor source).map (·.id)).Nodup := hids.sublist (List.filter_sublist.map _)
  have howner : Mirror.owner? c.like (r.mirrorsFor source) (some key) = some m := by
    rw [Mirror.owner?_eq_some hids' hm]
    refine ⟨hun, ?_⟩
    have hbefore : ((m.before (r.mirrorsFor source)).any fun e => e.takes c.like key) = false := by
      rw [← Mirror.any_takes_filter, List.any_eq_false]
      intro e he
      rw [htakes.2 e he]
      decide
    rw [Mirror.owns_eq hun, Option.any_some, htakes.1, hbefore]
    rfl
  refine ⟨howner, ?_⟩
  intro e he row condition hcondition s hs
  have hsource : e.source = source := by
    have := (List.mem_filter.1 he).2
    exact eq_of_beq this
  have hearlier : Plan.earlierClaims r e = Plan.claimsBefore (r.mirrorsFor source) e :=
    congrArg (fun source => Plan.claimsBefore (r.mirrorsFor source) e) hsource
  rw [hearlier] at hcondition
  have hune : e.isUnfiltered = false := by
    rw [← Bool.not_eq_true]
    intro hune
    simp [Plan.claimCondition, hune] at hcondition
  rw [Plan.holds_claimCondition (fun x hx => hcolumns x hx e he) hcondition, hs]
  have hiff : Mirror.owner? c.like (r.mirrorsFor source) (some key) = some e ↔
      e.isUnfiltered = false ∧ e.owns c.like (r.mirrorsFor source) (some key) = true :=
    Mirror.owner?_eq_some hids' he (some key)
  constructor
  · intro how
    exact Option.some.inj ((hiff.2 ⟨hune, how⟩).symm.trans howner)
  · rintro rfl
    exact (hiff.1 howner).2

end Routing

/-- If a query is sent to a whitelisted mirror, it holds no disjunction, and each occurrence of the
source is kept by a predicate to keys that the mirror owns, however the store compares texts. -/
theorem owner_of_route {c : Catalog} {s : Setup} (hs : Registered c s) {query : Text}
    {route : Routing.Route} (h : route ∈ (Routing.decision s.finalize.mirrors query).routes) :
    ∃ m ∈ s.mirrors, m.id = route.mirror ∧ m.source = route.source ∧ (m.isUnfiltered = false →
      ∃ q, Query.parse query = .ok q ∧ q.usesOr = false ∧
        ∀ t ∈ q.references route.source, ∃ p ∈ q.predicates, Routing.IsOn q p m t ∧
          ∀ (c : Collation) key, p.Selects q c key →
            Mirror.owner? c.like (s.finalize.mirrorsFor route.source) (some key) = some m ∧
            ∀ e ∈ s.finalize.mirrorsFor route.source, ∀ row condition,
              Plan.claimCondition e (Plan.earlierClaims s.finalize e) row = some condition →
                ∀ scope : Sql.Scope Text, scope.cell ⟨row, e.keyColumn⟩ = some key →
                  (condition.holds c.like scope = true ↔ e = m)) := by
  obtain ⟨q, hparse, -, hroutes, -⟩ := Routing.parse_of_route h
  have hroute : route ∈ Routing.routesOf s.finalize.mirrors q := hroutes ▸ h
  obtain ⟨hrefs, m, hid, hel⟩ := Routing.mem_eligible_of_route hroute
  have hids : ((s.mirrors.filter (·.source == route.source)).map (·.id)).Nodup :=
    hs.nodup_ids.sublist (List.filter_sublist.map _)
  obtain ⟨hmem, hcovers⟩ := Routing.covers_of_mem_eligible hids hel
  obtain ⟨hm, hsource⟩ := List.mem_filter.1 hmem
  refine ⟨m, hm, hid, eq_of_beq hsource, ?_⟩
  intro hun
  have hcolumns : ∀ x ∈ s.finalize.mirrorsFor route.source,
      ∀ y ∈ s.finalize.mirrorsFor route.source, x.keyColumn = y.keyColumn := by
    intro x hx y hy
    obtain ⟨hx, hxs⟩ := List.mem_filter.1 hx
    obtain ⟨hy, hys⟩ := List.mem_filter.1 hy
    exact congrArg Sql.Columns.key
      (hs.columnsOf_eq hx hy ((eq_of_beq hxs).trans (eq_of_beq hys).symm))
  refine ⟨q, hparse, ?_, ?_⟩
  · obtain ⟨t, ht⟩ := List.exists_mem_of_ne_nil _ hrefs
    exact (Routing.exists_of_covers hun (List.mem_filter.1 ht).1 (hcovers t ht)).1
  · intro t ht
    obtain ⟨-, p, hp, hon, htakes⟩ :=
      Routing.exists_of_covers hun (List.mem_filter.1 ht).1 (hcovers t ht)
    refine ⟨p, hp, hon, ?_⟩
    intro c key hk
    exact Routing.holds_iff_of_takes hs.nodup_ids hcolumns hmem hun (htakes c key hk)

open Sample in
/-- A query for one key, sent to the mirror of that key. -/
theorem owner_of_route_sample :
    ∃ q, Query.parse "SELECT meta_value FROM wp_postmeta WHERE meta_key = 'colour'".toList = .ok q ∧
      q.usesOr = false ∧ ∀ t ∈ q.references "wp_postmeta".toList, ∃ p ∈ q.predicates,
        Routing.IsOn q p colours t ∧ ∀ (c : Collation) key, p.Selects q c key →
          Mirror.owner? c.like (setup.finalize.mirrorsFor "wp_postmeta".toList) (some key) =
            some colours := by
  have hroute : (⟨"wp_postmeta".toList, colours.id⟩ : Routing.Route) ∈
      (Routing.decision setup.finalize.mirrors
        "SELECT meta_value FROM wp_postmeta WHERE meta_key = 'colour'".toList).routes := by
    decide +kernel
  obtain ⟨m, hm, -, -, hq⟩ := owner_of_route registered hroute
  obtain rfl : m = colours := List.mem_singleton.1 hm
  obtain ⟨q, hparse, hor, hrefs⟩ := hq rfl
  refine ⟨q, hparse, hor, ?_⟩
  intro t ht
  obtain ⟨p, hp, hon, hkeys⟩ := hrefs t ht
  exact ⟨p, hp, hon, fun c key hk => (hkeys c key hk).1⟩

end TypedMirror
