import TypedMirror.Proofs.Provision

/-!
# Mirrors of different sources

The order of registration decides which of the mirrors of one source owns a key.  It decides nothing
between mirrors of different sources: routing and planning look at the mirrors of one source at a
time, and so only the order of routes and of plans can tell in which order the sources came up.

* `Reordered.routesOf_perm` — the routes of a query;
* `Reordered.readDecision` — what becomes of it;
* `Reordered.plan` — the statements for each mirror and each source;
* `Reordered.decision_and_plan` — both, for whole queries and written plans.
-/

namespace TypedMirror

/-- The mirrors are listed in another order, but those of each source in the same. -/
structure Reordered (ms ms' : List Mirror) : Prop where
  perm : ms.Perm ms'
  filter_eq : ∀ source, ms.filter (·.source == source) = ms'.filter (·.source == source)

/-- The decisions differ in the order of their routes at most. -/
structure Routing.Decision.Same (d d' : Routing.Decision) : Prop where
  redirected_eq : d.redirected = d'.redirected
  parsed_eq : d.parsed = d'.parsed
  skipped_eq : d.skipped = d'.skipped
  routes_perm : d.routes.Perm d'.routes

/-- The plans make each mirror in the same way, and give each source the same three triggers. -/
structure Plan.Same {σ : Type} (r : Registry) (p p' : Plan σ) : Prop where
  mirrors_perm : p.mirrors.Perm p'.mirrors
  triggers_perm : p.triggers.Perm p'.triggers
  mirror : ∀ m ∈ r.mirrors, ∃ made : MirrorPlan σ,
    p.mirrors.filter (·.mirror = m.id) = [made] ∧ p'.mirrors.filter (·.mirror = m.id) = [made]
  triggers : ∀ source ∈ r.sourceTables, ∃ insert update delete : TriggerPlan σ,
    p.triggers.filter (·.source = source) = [insert, update, delete] ∧
      p'.triggers.filter (·.source = source) = [insert, update, delete]

/-! ## Routes -/

namespace Routing

variable {ms : List Mirror} {q : Query} {routes routes' : List Route}

theorem Decision.Same.refl (d : Decision) : d.Same d := ⟨rfl, rfl, rfl, .rfl⟩

/-- A source has one route. -/
theorem eq_of_source_eq {a b : Route} (ha : a ∈ routesOf ms q) (hb : b ∈ routesOf ms q)
    (h : a.source = b.source) : a = b := by
  obtain ⟨-, -, m, hm, hid⟩ := mem_routesOf.1 ha
  obtain ⟨-, -, m', hm', hid'⟩ := mem_routesOf.1 hb
  rw [h, hm'] at hm
  cases hm
  cases a
  cases b
  cases h
  cases hid.symm.trans hid'
  rfl

/-- If each source has one route, it does not matter in which order they are searched. -/
theorem redirect_eq_of_mem_iff (hmem : ∀ route, route ∈ routes ↔ route ∈ routes')
    (hsource : ∀ a ∈ routes, ∀ b ∈ routes, a.source = b.source → a = b) :
    redirect routes = redirect routes' := by
  funext n
  rcases redirect_cases routes n with ⟨a, ha, hn, hto⟩ | ⟨hnone, hto⟩ <;>
    rcases redirect_cases routes' n with ⟨b, hb, hn', hto'⟩ | ⟨hnone', hto'⟩
  · obtain rfl := hsource a ha b ((hmem b).2 hb) (hn.trans hn'.symm)
    rw [hto, hto']
  · exact absurd hn (hnone' a ((hmem a).1 ha))
  · exact absurd hn' (hnone b ((hmem b).2 hb))
  · rw [hto, hto']

end Routing

/-! ## Plans -/

namespace Plan

open Sql

variable {σ : Type} {r : Registry} {m : Mirror} {source : Text} {f : Statement → σ}

/-- The part of a plan that makes a given mirror. -/
theorem filter_mirrors (hids : (r.mirrors.map (·.id)).Nodup) (hm : m ∈ r.mirrors) :
    ((ofRegistry r).map f).mirrors.filter (·.mirror = m.id) =
      [(mirrorPlan m (earlierClaims r m)).map f] := by
  have hself : r.mirrors.filter (·.id = m.id) = [m] := by
    have h := Mirror.filter_id (p := fun _ => true) hids hm
    rwa [List.filter_true, if_pos rfl] at h
  rw [mirrors_map, List.filter_map]
  exact congrArg (List.map _) hself

/-- Among what there is for some different sources, that for a given one. -/
theorem filter_flatMap_sources {α : Type} {sources : List Text} {f : Text → List α} {name : α → Text}
    (hnodup : sources.Nodup) (hsource : source ∈ sources) (hname : ∀ s, ∀ a ∈ f s, name a = s) :
    (sources.flatMap f).filter (name · = source) = f source := by
  have hself : (f source).filter (name · = source) = f source := by
    rw [List.filter_eq_self]
    exact fun a ha => decide_eq_true (hname source a ha)
  have hothers : ∀ rest : List Text, source ∉ rest →
      (rest.flatMap f).filter (name · = source) = [] := by
    intro rest hrest
    rw [List.filter_eq_nil_iff]
    intro a ha hsame
    obtain ⟨s, hs, ha⟩ := List.mem_flatMap.1 ha
    rw [decide_eq_true_eq, hname s a ha] at hsame
    exact hrest (hsame ▸ hs)
  -- the source comes up once, and what is before and behind it bears other names
  obtain ⟨before, after, rfl⟩ := List.append_of_mem hsource
  obtain ⟨-, hafter, hdisjoint⟩ := List.nodup_append.1 hnodup
  have hbefore : source ∉ before := fun h => hdisjoint _ h _ List.mem_cons_self rfl
  rw [List.flatMap_append, List.flatMap_cons, List.filter_append, List.filter_append, hself,
    hothers before hbefore, hothers after (List.nodup_cons.1 hafter).1, List.nil_append,
    List.append_nil]

/-- The triggers of a plan for a given source. -/
theorem filter_triggers (hsource : source ∈ r.sourceTables) :
    ((ofRegistry r).map f).triggers.filter (·.source = source) =
      Event.all.map fun e => (triggerPlan source (r.mirrorsFor source) e).map f := by
  rw [triggers_map]
  refine filter_flatMap_sources (Registry.nodup_sourceTables r) hsource fun s t ht => ?_
  obtain ⟨e, -, rfl⟩ := List.mem_map.1 ht
  rfl

end Plan

/-! ## Other orders -/

namespace Reordered

open Sql (Event Statement)

/-- Neighbours that are mirrors of different sources may change places. -/
theorem swap {m m' : Mirror} (hsource : m.source ≠ m'.source) (ms : List Mirror) :
    Reordered (m :: m' :: ms) (m' :: m :: ms) where
  perm := .swap m' m ms
  filter_eq := by
    intro source
    by_cases h : m.source = source
    · have h' : ¬ m'.source = source := fun h' => hsource (h.trans h'.symm)
      simp [h, h']
    · simp [List.filter_cons, h]

section Decisions

variable {ms ms' : List Mirror} (h : Reordered ms ms')
include h

theorem sourcesOf_perm : (Registry.sourcesOf ms).Perm (Registry.sourcesOf ms') := by
  refine (List.perm_ext_iff_of_nodup (Registry.nodup_sourcesOf ms)
    (Registry.nodup_sourcesOf ms')).2 fun source => ?_
  rw [Registry.mem_sourcesOf, Registry.mem_sourcesOf]
  exact (h.perm.map _).mem_iff

theorem choose_eq (q : Query) (source : Text) :
    Routing.choose ms q source = Routing.choose ms' q source := by
  unfold Routing.choose
  rw [h.filter_eq]

theorem routesOf_perm (q : Query) : (Routing.routesOf ms q).Perm (Routing.routesOf ms' q) := by
  unfold Routing.routesOf
  simp only [h.choose_eq q]
  exact h.sourcesOf_perm.filterMap _

theorem redirect_eq (q : Query) : Routing.redirect (Routing.routesOf ms q) =
    Routing.redirect (Routing.routesOf ms' q) :=
  Routing.redirect_eq_of_mem_iff (fun _ => (h.routesOf_perm q).mem_iff)
    fun _ ha _ hb hsource => Routing.eq_of_source_eq ha hb hsource

theorem readDecision (query : Text) (q : Query) :
    (Routing.readDecision ms query q).Same (Routing.readDecision ms' query q) := by
  have hroutes := h.routesOf_perm q
  unfold Routing.readDecision
  dsimp only
  rw [h.redirect_eq, hroutes.isEmpty_eq, hroutes.any_eq]
  split
  · exact .refl _
  split
  · exact .refl _
  · exact ⟨rfl, rfl, rfl, hroutes⟩

theorem decision (query : Text) : (Routing.decision ms query).Same (Routing.decision ms' query) := by
  unfold Routing.decision
  rw [h.sourcesOf_perm.any_eq]
  split
  · exact .refl _
  split
  · exact .refl _
  split
  · exact .refl _
  split
  · exact .refl _
  · exact h.readDecision query _

end Decisions

section Plans

variable {r r' : Registry} (h : Reordered r.mirrors r'.mirrors)
include h

theorem mirrorsFor_eq : r.mirrorsFor = r'.mirrorsFor := funext h.filter_eq

theorem earlierClaims_eq : Plan.earlierClaims r = Plan.earlierClaims r' := by
  funext m
  unfold Plan.earlierClaims
  rw [h.mirrorsFor_eq]

theorem plan {σ : Type} (hids : (r.mirrors.map (·.id)).Nodup) (f : Statement → σ) :
    Plan.Same r ((Plan.ofRegistry r).map f) ((Plan.ofRegistry r').map f) where
  mirrors_perm := by
    rw [Plan.mirrors_map, Plan.mirrors_map, h.earlierClaims_eq]
    exact h.perm.map _
  triggers_perm := by
    rw [Plan.triggers_map, Plan.triggers_map, h.mirrorsFor_eq]
    exact h.sourcesOf_perm.flatMap_right _
  mirror := by
    intro m hm
    have hids' : (r'.mirrors.map (·.id)).Nodup := (h.perm.map _).nodup_iff.1 hids
    refine ⟨_, Plan.filter_mirrors hids hm, ?_⟩
    rw [Plan.filter_mirrors hids' (h.perm.mem_iff.1 hm), h.earlierClaims_eq]
  triggers := by
    intro source hsource
    refine ⟨_, _, _, Plan.filter_triggers hsource, ?_⟩
    rw [Plan.filter_triggers (h.sourcesOf_perm.mem_iff.1 hsource), h.mirrorsFor_eq]
    rfl

end Plans

/-- Mirrors of different sources may be registered in any order: every query is sent to the same
mirrors, and every plan makes the same tables and triggers. -/
theorem decision_and_plan {ms ms' : List Mirror} (h : Reordered ms ms') :
    (∀ query, (Routing.decision ms query).Same (Routing.decision ms' query)) ∧
      ∀ r r' : Registry, r.mirrors = ms → r'.mirrors = ms' → r.Committed → r'.Committed →
        ∃ p p', Plan.write r = .ok p ∧ Plan.write r' = .ok p' ∧ Plan.Same r p p' := by
  refine ⟨h.decision, ?_⟩
  rintro r r' rfl rfl hr hr'
  exact ⟨_, _, Plan.write_of_committed hr, Plan.write_of_committed hr',
    h.plan hr.enrolled.nodup_ids Statement.written⟩

/-- The mirror of items first. -/
def itemsFirst : Registry where
  catalog := .standard
  mirrors := [Plan.itemMirror, Sample.colours,
    { Sample.colours with
      id := "wp_postmeta_mm_integer".toList, valueType := .integer, typeArgs := [],
      whitelist := [] }]
  index := [("wp_postmeta_mm_integer".toList, 2), ("wp_postmeta_mm_varchar_16".toList, 1),
    ("shop_itemmeta_mm_longtext".toList, 0)]

theorem committed_itemsFirst : itemsFirst.Committed :=
  Plan.committed_of_items [.add Plan.itemMirror,
    Plan.registerPosts "varchar" ["16".toList], Plan.registerPosts "integer" [],
    .addKey "wp_postmeta_mm_varchar_16".toList "colour".toList, .finalize]
    (by simp [Plan.registerPosts]) (by decide +kernel)

/-- The sources come up in another order, and nothing else is different. -/
theorem decision_and_plan_itemsFirst :
    Plan.mixedRegistry.sourceTables = itemsFirst.sourceTables.reverse ∧
      (∀ query, (Routing.decision Plan.mixedRegistry.mirrors query).Same
        (Routing.decision itemsFirst.mirrors query)) ∧
      ∃ p p', Plan.write Plan.mixedRegistry = .ok p ∧ Plan.write itemsFirst = .ok p' ∧
        Plan.Same Plan.mixedRegistry p p' := by
  have hreordered : Reordered Plan.mixedRegistry.mirrors itemsFirst.mirrors :=
    .swap (by decide +kernel) _
  obtain ⟨hdecision, hplan⟩ := decision_and_plan hreordered
  exact ⟨by decide +kernel, hdecision,
    hplan _ _ rfl rfl Plan.committed_mixedRegistry committed_itemsFirst⟩

end Reordered

end TypedMirror
