import Mathlib.Data.List.Forall2
import TypedMirror.Proofs.Committed
import TypedMirror.Proofs.Patterns.Names
import TypedMirror.Proofs.Patterns.Plans

/-!
# What a pattern can do to a plan

Nothing: the statements that a commit runs are made of text that does not depend on what the patterns
say, and of the patterns themselves, between quotes that they cannot leave.

* `Plan.patterns_enclosed` — the literals of each statement, and the plan with other patterns.
-/

namespace TypedMirror

open List (Forall₂)

/-- The mirrors differ in what their patterns say at most. -/
structure Mirror.Alike (m m' : Mirror) : Prop where
  eq : m' = { m with whitelist := m'.whitelist }
  length_eq : m.whitelist.length = m'.whitelist.length

/-- The registries have the same mirrors, but for what the patterns say. -/
def Registry.Alike (r r' : Registry) : Prop := Forall₂ Mirror.Alike r.mirrors r'.mirrors

theorem Mirror.Alike.erase_eq {m m' : Mirror} (h : m.Alike m') : m.erase = m'.erase := by
  have hpatterns : m.whitelist.map (fun _ => ([] : Text)) = m'.whitelist.map fun _ => [] := by
    rw [List.map_const', List.map_const', h.length_eq]
  rw [h.eq]
  exact congrArg (fun patterns => { m with whitelist := patterns }) hpatterns

namespace Sql.Statement

/-- The text of the statement, if it can be written. -/
def written (s : Statement) : Text := s.text.toOption.getD []

theorem written_of_text {s : Statement} {t : Text} (h : s.text = .ok t) : s.written = t := by
  rw [written, h]
  rfl

theorem Writable.text_eq {s : Statement} (h : s.Writable) : s.text = .ok s.written := by
  obtain ⟨t, -, ht, -, -⟩ := s.both_text h
  rw [ht, written_of_text ht]

theorem Writable.quoting {s : Statement} (h : s.Writable) :
    Quoting s.patterns s.written s.erase.written := by
  obtain ⟨t, t', ht, ht', hquoting⟩ := s.both_text h
  rwa [written_of_text ht, written_of_text ht']

end Sql.Statement

namespace Plan

open Sql (Statement)

variable {r r' : Registry}

theorem writable_of_committed (h : r.Committed) : ∀ s ∈ (ofRegistry r).statements, s.Writable :=
  writable_of_mem fun m hm => (h.enrolled.defined m hm).named

theorem write_of_committed (h : r.Committed) :
    write r = .ok ((ofRegistry r).map Statement.written) :=
  mapM_statements fun s hs => (writable_of_committed h s hs).text_eq

/-- A plan is made of the mirrors alone. -/
theorem ofRegistry_congr (h : r.mirrors = r'.mirrors) : ofRegistry r = ofRegistry r' := by
  cases r
  cases r'
  cases h
  rfl

theorem ofRegistry_erase_eq (h : r.Alike r') : ofRegistry r.erase = ofRegistry r'.erase :=
  ofRegistry_congr (Routing.map_eq_of_forall₂ h fun _ _ hm => hm.erase_eq)

/-- The deflated statements of a plan are those of the plan with empty patterns. -/
theorem map_query (h : ∀ s ∈ (ofRegistry r).statements, s.Writable) :
    ((ofRegistry r).map Statement.written).map (fun t => (Deflated.ofQuery t).query) =
      (ofRegistry r.erase).map fun s => (Deflated.ofQuery s.written).query := by
  rw [map_map, ← map_erase, map_map]
  exact map_congr fun s hs => (h s hs).quoting.query_eq

/-- A committed registry has a plan.  Its statements have no literals but the patterns, in single
quotes and in the order in which they are used, and no quote stands outside of them.  With other
patterns in the mirrors, as many in each, every statement is deflated to the text that it was. -/
theorem patterns_enclosed (h : r.Committed) : ∃ p, write r = .ok p ∧
    (∀ t ∈ p.statements, (∀ q ∈ (Passage.split t).1, q.quote = '\'') ∧
      (Passage.split t).2.Quoteless) ∧
    p.map (fun t => (Deflated.ofQuery t).literals.map Quoted.read) = patternsOf r ∧
    ∀ r', r'.Committed → r.Alike r' → ∃ p', write r' = .ok p' ∧
      p'.map (fun t => (Deflated.ofQuery t).query) =
        p.map fun t => (Deflated.ofQuery t).query := by
  have hwritable := writable_of_committed h
  refine ⟨_, write_of_committed h, ?_, ?_, ?_⟩
  · rw [statements_map, List.forall_mem_map]
    intro s hs
    obtain ⟨hquote, htail, -, -⟩ := (hwritable s hs).quoting.split
    exact ⟨hquote, htail⟩
  · rw [map_map, ← map_patterns h.enrolled.nodup_ids]
    exact map_congr fun s hs => (hwritable s hs).quoting.literals
  · intro r' h' halike
    refine ⟨_, write_of_committed h', ?_⟩
    rw [map_query hwritable, map_query (writable_of_committed h'), ofRegistry_erase_eq halike]

/-- Three mirrors of posts, the last of every key. -/
def sampleRegistry (a b c : Text) : Registry where
  catalog := .standard
  mirrors := [{ Sample.colours with whitelist := [a, b] },
    { Sample.colours with
      id := "wp_postmeta_mm_integer".toList, valueType := .integer, typeArgs := [],
      whitelist := [c] },
    { Sample.colours with
      id := "wp_postmeta_mm_longtext".toList, valueType := .longtext, typeArgs := [],
      whitelist := [] }]
  index := [("wp_postmeta_mm_longtext".toList, 2), ("wp_postmeta_mm_integer".toList, 1),
    ("wp_postmeta_mm_varchar_16".toList, 0)]

/-- The steps in which they are registered. -/
def sampleSteps (a b c : Text) : List Session.Step :=
  let register := fun type args => Session.Step.register "wp_postmeta".toList type args
  [register "varchar".toList ["16".toList], register "integer".toList [],
    register "longtext".toList [], .addKey "wp_postmeta_mm_varchar_16".toList a,
    .addKey "wp_postmeta_mm_varchar_16".toList b, .addKey "wp_postmeta_mm_integer".toList c,
    .finalize]

theorem committed_sample {a b c : Text} (h : (Session.setup (.start .standard)).after
    (sampleSteps a b c) = .committed (sampleRegistry a b c) .isOpen) :
    (sampleRegistry a b c).Committed :=
  ⟨.standard, sampleSteps a b c, .isOpen, by simp [sampleSteps, Session.Step.Sound], h⟩

/-- Patterns with quotes and backslashes, and with what looks like the end of a statement, a comment
or a marker. -/
theorem patterns_enclosed_sample :
    let r := sampleRegistry "it's".toList "c:\\".toList "' OR 1 = 1 -- ".toList
    let r' := sampleRegistry "[[literal:1]]".toList "\\' \"".toList "/*\n".toList
    r.Committed ∧ r'.Committed ∧ r.Alike r' ∧ ∃ p p', write r = .ok p ∧ write r' = .ok p' ∧
      p.mirrors.map (fun m => (Deflated.ofQuery m.backfill).literals.map Quoted.read) =
        [["it's".toList, "c:\\".toList],
          ["' OR 1 = 1 -- ".toList, "it's".toList, "c:\\".toList], []] ∧
      p'.map (fun t => (Deflated.ofQuery t).query) =
        p.map fun t => (Deflated.ofQuery t).query := by
  intro r r'
  have hr : r.Committed := committed_sample (by decide +kernel)
  have hr' : r'.Committed := committed_sample (by decide +kernel)
  have halike : r.Alike r' :=
    .cons ⟨rfl, rfl⟩ (.cons ⟨rfl, rfl⟩ (.cons ⟨rfl, rfl⟩ .nil))
  obtain ⟨p, hp, -, hliterals, hothers⟩ := patterns_enclosed hr
  obtain ⟨p', hp', hqueries⟩ := hothers r' hr' halike
  refine ⟨hr, hr', halike, p, p', hp, hp', ?_, hqueries⟩
  have hbackfills : (p.map fun t => (Deflated.ofQuery t).literals.map Quoted.read).mirrors.map
      (·.backfill) = (patternsOf r).mirrors.map (·.backfill) := by rw [hliterals]
  rw [map, List.map_map] at hbackfills
  exact hbackfills.trans (by decide +kernel)

end Plan

end TypedMirror
