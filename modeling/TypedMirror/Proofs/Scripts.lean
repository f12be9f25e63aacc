import TypedMirror.Proofs.Scripts.Statements

/-!
# Plans read back from scripts

The script of a plan gives a client the statements of the plan, whatever the patterns in them say:
semicolons in the bodies of triggers stand between other delimiters, and what looks like the end of a
statement, a comment or a new delimiter in a pattern stands in a string.

* `Plan.gives_mirrorPlan`, `Plan.gives_triggerPlan` — what the parts of a script give;
* `Plan.read_script` — what the whole of it gives.
-/

namespace TypedMirror

open Sql (Event Statement)
open Script (Gives semicolon)

theorem Text.IsWord.newline_not_mem {n : Text} (h : n.IsWord) : '\n' ∉ n := fun hmem =>
  absurd (h.isWordChar _ hmem) (by decide)

namespace Plan

/-- The delimiter around the bodies of triggers. -/
def slashes : Delimiter := ⟨"//".toList, by decide⟩

variable {r : Registry} {m : Mirror} {es ms : List Mirror} {s : Statement}

/-- A line of the script with one statement. -/
theorem gives_line (h : Script.IsStatement ';' s.written) :
    Gives semicolon (line [s.written, [';']]) [s.written] semicolon := by
  have := h.gives (d := semicolon) rfl (by decide) [] nofun
  simpa [line, semicolon] using this

theorem isStatement_of_ne (h : s.Writable) (hmark : s.mark = ';')
    (htype : ∀ table columns valueType, s ≠ .createTable table columns valueType) :
    Script.IsStatement ';' s.written :=
  hmark ▸ h.isStatement fun _ _ _ hs => absurd hs (htype _ _ _)

/-- The part of a mirror gives the statements that make the mirror. -/
theorem gives_mirrorPlan (hid : m.id.IsWord) (h : ∀ s ∈ (mirrorPlan m es).statements, s.Writable) :
    Gives semicolon ((mirrorPlan m es).map Statement.written).script
      ((mirrorPlan m es).map Statement.written).statements semicolon := by
  have hstatement : ∀ s ∈ (mirrorPlan m es).statements, Script.IsStatement ';' s.written := by
    obtain ⟨hdrops, hothers⟩ := List.forall_mem_append.1 h
    obtain ⟨hcreate, hbackfill⟩ := List.forall_mem_cons.1 hothers
    refine List.forall_mem_append.2 ⟨?_, List.forall_mem_cons.2 ⟨?_, ?_⟩⟩
    · intro s hs
      have hwritable := hdrops s hs
      rcases List.mem_append.1 hs with hs | hs
      · obtain ⟨e, -, rfl⟩ := List.mem_map.1 hs
        exact isStatement_of_ne hwritable rfl nofun
      · obtain rfl := List.mem_singleton.1 hs
        exact isStatement_of_ne hwritable rfl nofun
    · refine hcreate.isStatement ?_
      rintro _ _ _ ⟨⟩
      exact m.valueType.inline_columnType m.typeArgs
    · refine List.forall_mem_singleton.2 ?_
      exact isStatement_of_ne (hbackfill _ List.mem_cons_self) rfl nofun
  have hcomment : Gives semicolon (line ["-- mirror ".toList, m.id]) [] semicolon := by
    have hline : '\n' ∉ "mirror ".toList ++ m.id := by simp [hid.newline_not_mem]
    simpa [line] using Script.gives_comment hline
  have hlines : Gives semicolon
      (((mirrorPlan m es).statements.map Statement.written).flatMap fun t => line [t, [';']])
      ((mirrorPlan m es).statements.map Statement.written) semicolon := by
    rw [List.flatMap_map, List.map_eq_flatMap]
    exact Gives.flatMap fun s hs => gives_line (hstatement s hs)
  have hstatements : ((mirrorPlan m es).map Statement.written).statements =
      (mirrorPlan m es).statements.map Statement.written := by
    simp [MirrorPlan.map, MirrorPlan.statements]
  have hblank : Gives semicolon ['\n'] [] semicolon :=
    Script.gives_blank rfl (by decide)
  rw [MirrorPlan.script, hstatements, ← List.append_nil (List.map _ _)]
  exact (hcomment.append hlines).append hblank

/-- The part of a trigger gives the statements that make the trigger. -/
theorem gives_triggerPlan {source : Text} (hsource : source.IsWord) (e : Event)
    (h : ∀ s ∈ (triggerPlan source ms e).statements, s.Writable) :
    Gives semicolon ((triggerPlan source ms e).map Statement.written).script
      ((triggerPlan source ms e).map Statement.written).statements semicolon := by
  obtain ⟨hdrop, hcreate⟩ := List.forall_mem_cons.1 h
  have hcomment : Gives semicolon (line ["-- trigger ".toList, triggerName e source]) []
      semicolon := by
    have hline : '\n' ∉ "trigger ".toList ++ triggerName e source := by
      simp [(isWord_triggerName hsource e).newline_not_mem]
    simpa [line] using Script.gives_comment hline
  have hdrop' := gives_line (isStatement_of_ne hdrop rfl nofun)
  have hslashes : Gives semicolon "DELIMITER //\n".toList [] slashes :=
    Script.gives_delimiter slashes (by decide)
  have hcreate' : Gives slashes
      (line [(triggerPlan source ms e).create.written, " //".toList])
      [(triggerPlan source ms e).create.written] slashes := by
    have hstatement : Script.IsStatement '/' (triggerPlan source ms e).create.written :=
      (hcreate _ List.mem_cons_self).isStatement nofun
    have := hstatement.gives (d := slashes) rfl (by decide) [' '] (by simp)
    simpa [line, slashes] using this
  have hback : Gives slashes "DELIMITER ;\n".toList [] semicolon :=
    Script.gives_delimiter semicolon (by decide)
  have hblank : Gives semicolon ['\n'] [] semicolon :=
    Script.gives_blank rfl (by decide)
  have hall := ((((hcomment.append hdrop').append hslashes).append hcreate').append hback).append
    hblank
  rw [TriggerPlan.script, show "DELIMITER ;\n\n".toList = "DELIMITER ;\n".toList ++ ['\n'] from rfl,
    ← List.append_assoc]
  exact hall

/-- A committed registry has a plan, and the script of that plan gives a client the statements of the
plan, in order and each as it is.  Nothing is left behind them, and the delimiter is a semicolon
again. -/
theorem read_script (h : r.Committed) : ∃ p, write r = .ok p ∧
    Script.read p.script = ⟨p.statements, [], semicolon⟩ := by
  have hwritable := List.forall_mem_append.1 (writable_of_committed h)
  have hnamed : ∀ m ∈ r.mirrors, m.Named := fun m hm => (h.enrolled.defined m hm).named
  have hmirrors := List.forall_mem_flatMap.1 hwritable.1
  have htriggers := List.forall_mem_flatMap.1 hwritable.2
  refine ⟨_, write_of_committed h, Gives.read_eq ?_⟩
  refine Gives.append (?_ : Gives semicolon _ _ semicolon) ?_
  · refine Gives.flatMap fun x hx => ?_
    obtain ⟨p, hp, rfl⟩ := List.mem_map.1 hx
    have hp' := hmirrors p hp
    obtain ⟨m, hm, rfl⟩ := List.mem_map.1 hp
    exact gives_mirrorPlan (hnamed m hm).id hp'
  · refine Gives.flatMap fun x hx => ?_
    obtain ⟨p, hp, rfl⟩ := List.mem_map.1 hx
    have hp' := htriggers p hp
    obtain ⟨source, hsource, hp⟩ := List.mem_flatMap.1 hp
    obtain ⟨m, hm, rfl⟩ := Registry.mem_sourceTables.1 hsource
    obtain ⟨e, -, rfl⟩ := List.mem_map.1 hp
    exact gives_triggerPlan (hnamed m hm).source e hp'

/-- Patterns that look like the end of a statement, a new delimiter, a comment and the end of a
string. -/
theorem read_script_sample :
    let r := sampleRegistry "a;\nDELIMITER //\n".toList "// ;\n-- b".toList "it's \\".toList
    r.Committed ∧ ∃ p, write r = .ok p ∧ p.statements.length = 24 ∧
      Script.read p.script = ⟨p.statements, [], semicolon⟩ := by
  intro r
  have hr : r.Committed := committed_sample (by decide +kernel)
  obtain ⟨p, hp, hread⟩ := read_script hr
  have hlength : (ofRegistry r).statements.length = 24 := by decide +kernel
  refine ⟨hr, p, hp, ?_, hread⟩
  rw [Except.ok.inj (hp.symm.trans (write_of_committed hr)), statements_map, List.length_map,
    hlength]

end Plan

end TypedMirror
