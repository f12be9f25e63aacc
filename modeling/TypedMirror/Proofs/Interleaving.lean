import TypedMirror.Proofs.Interleaving.Agreement
import TypedMirror.Proofs.Interleaving.Refusals

/-!
# Writes while a plan is run

A mirror takes over what is in its source when it is filled, and from then on it follows the writes
that its source already has a trigger for.  It misses the others, which fall between its backfill and
the creation of that trigger.  About the rows that such a write changes it may be wrong; about all
others it is right.  A row that it has not seen go is in the way of one that comes under the same id.

* `Registry.Misses` — the writes that a mirror misses;
* `Registry.Lost` — the rows that they change;
* `Interleaves.held` — what a mirror holds at any moment since it was filled;
* `Interleaves.refused_iff` — which writes are refused, once the triggers of earlier plans are gone;
* `mirrors_among_writes` — what the sources and the mirrors hold in the end.
-/

namespace TypedMirror

open Sql Plan

variable {V : Type} [DecidableEq V]

/-! ## What a mirror holds -/

/-- A mirror has the rows of its source that it owns, and no others. -/
def Registry.Exact (like : V → Text → Bool) (r : Registry) (m : Mirror) (db : Db V) : Prop :=
  ∃ t u, db.tables m.source = some t ∧ db.tables m.id = some u ∧
    u.rows.Perm (m.ownedRows like (r.mirrorsFor m.source) t.rows)

/-- A write that a mirror misses: the mirror has been filled, and its source does not have the plan's
trigger for such a write yet. -/
def Registry.Misses (r : Registry) (m : Mirror) (done : List Statement) (w : Write V) : Prop :=
  w.table = m.source ∧ (partFor r m).backfill ∈ done ∧
    creation (triggerOf r m.source w.event) ∉ done

/-- A write that changes no row that the mirror owns.  One that the source refuses is such a write. -/
def Registry.Spares (like : V → Text → Bool) (r : Registry) (m : Mirror) (w : Write V)
    (db : Db V) : Prop :=
  ∀ t t' cs, db.tables m.source = some t → w.effect t = some (t', cs) →
    (m.ownedRows like (r.mirrorsFor m.source) t'.rows).Perm
      (m.ownedRows like (r.mirrorsFor m.source) t.rows)

/-- The id of a row that a mirror owns, or would own, and that has been changed by a write which the
mirror has missed. -/
def Registry.Lost (like : V → Text → Bool) (depth : Nat) (r : Registry) (m : Mirror)
    (moves : List (Move V)) (db : Db V) (id : Option V) : Prop :=
  ∃ front w back db₁, moves = front ++ .write w :: back ∧
    runMoves like depth front db = some db₁ ∧ r.Misses m (statementsOf front) w ∧
    ¬ r.Spares like m w db₁ ∧ w.rowId m.idColumn = id

/-- The mirror's table is as `Mirror.HoldsBut` says. -/
def Registry.Held (lost : Option V → Prop) (like : V → Text → Bool) (r : Registry) (m : Mirror)
    (db : Db V) : Prop :=
  ∃ t u, db.tables m.source = some t ∧ db.tables m.id = some u ∧
    m.HoldsBut lost like (r.mirrorsFor m.source) t u

omit [DecidableEq V] in
theorem Registry.Held.mono {lost lost' : Option V → Prop} {like : V → Text → Bool} {r : Registry}
    {m : Mirror} {db : Db V} (h : r.Held lost like m db) (hle : ∀ i, lost i → lost' i) :
    r.Held lost' like m db := by
  obtain ⟨t, u, ht, hu, hholds⟩ := h
  exact ⟨t, u, ht, hu, hholds.mono hle⟩

namespace Underway

variable {like : V → Text → Bool} {depth : Nat} {r : Registry} {db db' : Db V} {m : Mirror}
  {done rest : List Statement} {s : Statement} {w : Write V} {lost : Option V → Prop}

omit [DecidableEq V] in
theorem exact_of_held (h : Underway r done db) (hm : m ∈ r.mirrors)
    (hheld : r.Held lost like m db) (hlost : ∀ i, ¬ lost i) : r.Exact like m db := by
  obtain ⟨t, u, ht, hu, hholds⟩ := hheld
  obtain ⟨hkeyed, hp⟩ := h.sourced.keyed hm ht
  exact ⟨t, u, ht, hu, hholds.perm hlost hkeyed hp⟩

/-- A mirror is filled by its backfill, and no other statement changes it afterwards. -/
theorem held_of_statement (h : Underway r done db) (hr : r.Regular) (hm : m ∈ r.mirrors)
    (hplan : (ofRegistry r).statements = done ++ s :: rest)
    (hfilled : (partFor r m).backfill ∈ done → r.Held lost like m db)
    (hdone : (partFor r m).backfill ∈ done ++ [s]) (hrun : s.run like depth db = some db') :
    r.Held lost like m db' := by
  have hruns := h.runs hr hplan hrun
  obtain ⟨t, ht, hkeyed, hp⟩ := h.sourced m hm
  by_cases hs : s = (partFor r m).backfill
  · obtain ⟨t₀, ht₀, hu⟩ := hruns.filled hr hm hs
    obtain rfl : t = t₀ := Option.some.inj (ht.symm.trans ht₀)
    exact ⟨t, _, (hruns.sources_eq hr hm).trans ht, hu, .of_holds lost (.filled hkeyed hp)⟩
  · have hbefore : (partFor r m).backfill ∈ done := by simpa [Ne.symm hs] using hdone
    obtain ⟨t, u, ht, hu, hholds⟩ := hfilled hbefore
    refine ⟨t, u, (hruns.sources_eq hr hm).trans ht, ?_, hholds⟩
    rw [hruns.mirror_eq hr hm ⟨?_, ?_, hs⟩, hu]
    · rintro rfl
      exact behind hr hplan hbefore rfl
    · rintro rfl
      exact behind hr hplan hbefore rfl

/-- The plan's trigger keeps a mirror as right as it was. -/
theorem held_of_trigger (h : Underway r done db) (hdefined : ∀ m ∈ r.mirrors, m.Defined)
    (hr : r.Regular) (hm : m ∈ r.mirrors) (hplan : (ofRegistry r).statements = done ++ rest)
    (hw : w.table = m.source) (hkeeps : w.KeepsId m.idColumn)
    (hcreation : creation (triggerOf r m.source w.event) ∈ done) (hheld : r.Held lost like m db)
    (hrun : w.run (fire like (depth + 1)) db = some db') :
    r.Held lost like m db' := by
  have hsource := Registry.mem_sourceTables.2 ⟨m, hm, rfl⟩
  obtain ⟨t, t', cs, ht, he, -, htables⟩ := tables_of_change hdefined h.generated hrun
  obtain ⟨t₀, u, ht₀, hu, hholds⟩ := hheld
  change db.change (fire like (depth + 1)) w.table w.effect = some db' at hrun
  rw [hw] at ht htables hrun
  obtain rfl : t = t₀ := Option.some.inj (ht.symm.trans ht₀)
  obtain ⟨hkeyed, hp⟩ := h.sourced.keyed hm ht
  obtain ⟨v, hv, hagree⟩ := hholds.agree
  have ht' : db'.tables m.source = some t' := by
    rw [htables m.source fun hnear => hnear.1 hsource]
    simp
  rcases Write.effect_of_keyed hkeyed (hp ▸ hkeeps) he with
    ⟨rfl, hfree, hex⟩ | ⟨c, rfl, hc, hid, hex⟩
  · -- There is no such row, neither in the source nor in what the mirror should hold.
    have hnothing : db.change (fire like (depth + 1)) m.source w.effect =
        some (db.put m.source t') := Db.change_eq _ ht he
    have hfree' := hv.fresh hp fun x hx _ => hfree x hx
    have hv' := hv.exchange hp hex (hv.keyed.exchange_self hfree')
    refine ⟨t', u, ht', ?_, hholds.keyed, v, hv', hagree⟩
    rw [Option.some.inj (hrun.symm.trans hnothing), Db.put_tables,
      if_neg (hr.apart m hm m hm).symm, hu]
  · have hevent : c.event = w.event := Write.event_of_effect he c List.mem_cons_self
    obtain ⟨u', hu', htable⟩ :=
      h.evolve_of_trigger hr hplan hm (hevent.symm ▸ hcreation) ht he hu hrun
    obtain ⟨v', hv', hholds'⟩ :=
      evolve_mirrorActions hv hkeyed hp (hr.keyColumn_eq hm) hc (hid.symm ▸ hex)
    obtain ⟨hkeyed', hagree'⟩ := hagree.evolve hholds.keyed hv.keyed hu' hv'
    exact ⟨t', u', ht', htable, hkeyed', v', hholds', hagree'⟩

/-- A mirror that misses a write goes wrong about the row, if it owns that before or after. -/
theorem held_of_missed (h : Underway r done db) (hr : r.Regular) (hm : m ∈ r.mirrors)
    (hplan : (ofRegistry r).statements = done ++ rest) (hmissed : r.Misses m done w)
    (hkeeps : w.KeepsId m.idColumn) (hheld : r.Held lost like m db)
    (hlost : ¬ r.Spares like m w db → lost (w.rowId m.idColumn))
    (hrun : w.run (fire like depth) db = some db') : r.Held lost like m db' := by
  obtain ⟨hw, hdone, hcreation⟩ := hmissed
  obtain ⟨t, t', cs, ht, he, rfl⟩ :=
    h.change_of_missed hr hm hplan hw (create_mem hplan hr.ids hm hdone) hcreation hrun
  obtain ⟨t₀, u, ht₀, hu, hholds⟩ := hheld
  obtain rfl : t = t₀ := Option.some.inj (ht.symm.trans ht₀)
  obtain ⟨hkeyed, hp⟩ := h.sourced.keyed hm ht
  refine ⟨t', u, by simp, ?_, ?_⟩
  · rw [Db.put_tables, if_neg (hr.apart m hm m hm).symm, hu]
  · by_cases hspares : r.Spares like m w db
    · obtain ⟨v, hv, hagree⟩ := hholds.agree
      refine ⟨hholds.keyed, v, ⟨hv.primary, hv.keyed, fun x => ?_⟩, hagree⟩
      rw [hv.mem x, ← Mirror.mem_ownedRows, ← Mirror.mem_ownedRows,
        (hspares t t' cs ht he).mem_iff]
    · obtain ⟨added, hadded, hex⟩ := Write.exchange_of_keyed hkeyed (hp ▸ hkeeps) he
      refine hholds.miss hex.keyed hp hex.primary fun x hx => hex.mem_of_ne hadded fun hid => hx ?_
      rw [hid, hp]
      exact hlost hspares

/-- A mirror does not go wrong about rows but by a write that it misses. -/
theorem held_of_write (h : Underway r done db) (hdefined : ∀ m ∈ r.mirrors, m.Defined)
    (hr : r.Regular) (hm : m ∈ r.mirrors) (hplan : (ofRegistry r).statements = done ++ rest)
    (hs : w.table ∈ r.sourceTables) (hkeeps : m.source = w.table → w.KeepsId m.idColumn)
    (hdone : (partFor r m).backfill ∈ done) (hheld : r.Held lost like m db)
    (hlost : r.Misses m done w → ¬ r.Spares like m w db → lost (w.rowId m.idColumn))
    (hrun : w.run (fire like (depth + 1)) db = some db') :
    r.Held lost like m db' := by
  by_cases hw : w.table = m.source
  · by_cases hcreation : creation (triggerOf r m.source w.event) ∈ done
    · exact h.held_of_trigger hdefined hr hm hplan hw (hkeeps hw.symm) hcreation hheld hrun
    · have hmissed : r.Misses m done w := ⟨hw, hdone, hcreation⟩
      exact h.held_of_missed hr hm hplan hmissed (hkeeps hw.symm) hheld (hlost hmissed) hrun
  · obtain ⟨t, t', cs, -, -, -, htables⟩ := tables_of_change hdefined h.generated hrun
    obtain ⟨t₀, u, ht₀, hu, hholds⟩ := hheld
    refine ⟨t₀, u, ?_, ?_, hholds⟩
    · have hsource := Registry.mem_sourceTables.2 ⟨m, hm, rfl⟩
      rw [htables m.source fun hnear => hnear.1 hsource, Db.put_tables, if_neg (Ne.symm hw), ht₀]
    · rw [htables m.id fun hnear => hw (hnear.2 m hm rfl).symm, Db.put_tables,
        if_neg (hr.id_ne_source hm hs), hu]

end Underway

/-! ## Any moves -/

/-- A plan is run, and a host writes to its sources meanwhile. -/
structure Interleaves (r : Registry) (moves : List (Move V)) : Prop where
  statements_eq : statementsOf moves = (ofRegistry r).statements
  sources : ∀ w, .write w ∈ moves → w.table ∈ r.sourceTables
  keepsId : ∀ w, .write w ∈ moves → ∀ m ∈ r.mirrors, m.source = w.table → w.KeepsId m.idColumn

section Moves

variable {like : V → Text → Bool} {depth : Nat} {r : Registry} {db db' : Db V} {m : Mirror}
  {move : Move V} {moves front back : List (Move V)}

theorem Registry.Lost.append {id : Option V} (h : r.Lost like depth m front db id)
    (back : List (Move V)) : r.Lost like depth m (front ++ back) db id := by
  obtain ⟨front', w, back', db₁, rfl, hlost⟩ := h
  exact ⟨front', w, back' ++ back, db₁, by simp, hlost⟩

namespace Interleaves

omit [DecidableEq V] in
theorem plan_eq (h : Interleaves r (front ++ back)) :
    (ofRegistry r).statements = statementsOf front ++ statementsOf back := by
  rw [← h.statements_eq, statementsOf, List.filterMap_append]
  rfl

/-- The columns of a table that has been created are distinct. -/
theorem columns_nodup (h : Interleaves r moves) (hrun : runMoves like depth moves db = some db')
    (hm : m ∈ r.mirrors) : (columnsOf m).names.Nodup := by
  have hmem : (partFor r m).create ∈ statementsOf moves := by
    rw [h.statements_eq]
    exact mem_statements.2 (.createTable hm)
  obtain ⟨db₁, db₂, hcreate⟩ := exists_run_of_mem hrun (statement_mem_of_mem hmem)
  by_contra hno
  have hnone : (partFor r m).create.run like depth db₁ = none := if_pos (.inr hno)
  cases hnone.symm.trans hcreate

section

variable (hdefined : ∀ m ∈ r.mirrors, m.Defined) (hr : r.Regular) (hsourced : r.Sourced db)
  (hold : ∀ tr ∈ db.triggers, Generated r tr)

include hdefined hr hsourced hold

/-- How things stand at any moment.  The sources have gone through the writes that have not been
refused as if there were no plan and no triggers. -/
theorem underway (h : Interleaves r (front ++ back))
    (hrun : runMoves like depth front db = some db') :
    Underway r (statementsOf front) db' ∧
      ∃ plain, runWrites ignore (writesTaken like depth front db) db = some plain ∧
        ∀ x ∈ r.sourceTables, db'.tables x = plain.tables x := by
  induction front using List.reverseRecOn generalizing back db' with
  | nil =>
    cases hrun
    exact ⟨⟨hsourced, hold, nofun, nofun, nofun⟩, db, rfl, fun _ _ => rfl⟩
  | append_singleton front move ih =>
    obtain ⟨db₁, hfront, hmove⟩ := runMoves_concat.1 hrun
    have hplan := h.plan_eq
    rw [List.append_assoc] at h
    obtain ⟨hstand, plain, hplain, hsame⟩ := ih h hfront
    rw [writesTaken_concat hfront]
    cases move with
    | statement s =>
      simp only [statementsOf_append, statementsOf_statement, List.append_assoc,
        List.singleton_append] at hplan ⊢
      have hnone : (@Move.statement V s).taken? like depth db₁ = none := rfl
      rw [hnone, Option.toList_none, List.append_nil]
      refine ⟨hstand.statement hdefined hr hplan hmove, plain, hplain, ?_⟩
      intro x hx
      obtain ⟨m, hm, rfl⟩ := Registry.mem_sourceTables.1 hx
      exact ((hstand.runs hr hplan hmove).sources_eq hr hm).trans (hsame _ hx)
    | write w =>
      have hmem : Move.write w ∈ front ++ ([.write w] ++ back) := by simp
      have hs := h.sources w hmem
      simp only [statementsOf_append, statementsOf_write, List.append_nil] at hplan ⊢
      rcases Move.run_write hmove with ⟨hrun, htaken⟩ | ⟨rfl, -, hrefused⟩
      · rw [htaken, Option.toList_some]
        refine ⟨hstand.write hdefined hr hplan hs (h.keepsId w hmem) hrun, ?_⟩
        obtain ⟨t, t', cs, ht, he, -, htables⟩ := tables_of_change hdefined hstand.generated hrun
        refine ⟨plain.put w.table t', ?_, ?_⟩
        · unfold runWrites at hplain ⊢
          rw [List.foldlM_append, hplain]
          have hchange := change_ignore_of ((hsame _ hs).symm.trans ht) he
          show (plain.change ignore w.table w.effect).bind _ = _
          rw [hchange]
          rfl
        · intro x hx
          rw [htables x fun hnear => hnear.1 hx, Db.put_tables, Db.put_tables, hsame x hx]
      · rw [hrefused, Option.toList_none, List.append_nil]
        exact ⟨hstand, plain, hplain, hsame⟩

/-- What a mirror holds at any moment since it was filled. -/
theorem held (h : Interleaves r (front ++ back))
    (hrun : runMoves like (depth + 1) front db = some db') (hm : m ∈ r.mirrors)
    (hdone : (partFor r m).backfill ∈ statementsOf front) :
    r.Held (r.Lost like (depth + 1) m front db) like m db' := by
  induction front using List.reverseRecOn generalizing back db' with
  | nil => cases hdone
  | append_singleton front move ih =>
    obtain ⟨db₁, hfront, hmove⟩ := runMoves_concat.1 hrun
    have hplan := h.plan_eq
    rw [List.append_assoc] at h
    have hstand := (h.underway hdefined hr hsourced hold hfront).1
    have hbefore : (partFor r m).backfill ∈ statementsOf front →
        r.Held (r.Lost like (depth + 1) m (front ++ [move]) db) like m db₁ :=
      fun hmem => (ih h hfront hmem).mono fun i hi => hi.append [move]
    cases move with
    | statement s =>
      simp only [statementsOf_append, statementsOf_statement, List.append_assoc,
        List.singleton_append] at hplan hdone
      exact hstand.held_of_statement hr hm hplan hbefore hdone hmove
    | write w =>
      have hmem : Move.write w ∈ front ++ ([.write w] ++ back) := by simp
      simp only [statementsOf_append, statementsOf_write, List.append_nil] at hplan hdone
      rcases Move.run_write hmove with ⟨hrun, -⟩ | ⟨rfl, -, -⟩
      · refine hstand.held_of_write hdefined hr hm hplan (h.sources w hmem) (h.keepsId w hmem m hm)
          hdone (hbefore hdone) (fun hmissed hspares => ?_) hrun
        exact ⟨front, w, [], db₁, rfl, hfront, hmissed, hspares, rfl⟩
      · exact hbefore hdone

section Refusals

variable {w : Write V} (h : Interleaves r (front ++ .write w :: back)) {db₁ : Db V}
  (hfront : runMoves like (depth + 1) front db = some db₁) (htaken : (w.run ignore db₁).isSome)

include h hfront htaken

/-- When the triggers for such a write that earlier plans have left are gone, and if its table takes
it, a write is refused just if a mirror is in the way of it. -/
theorem refused_iff (hdropped : .dropTrigger (triggerName w.event w.table) ∈ statementsOf front) :
    w.run (fire like (depth + 1)) db₁ = none ↔
      ∃ m ∈ r.mirrors, r.Blocks like m (statementsOf front) w db₁ := by
  have hmem : Move.write w ∈ front ++ .write w :: back := by simp
  refine (h.underway hdefined hr hsourced hold hfront).1.refused_iff hr h.plan_eq
    (h.sources w hmem) (h.keepsId w hmem) hdropped (fun m hm hdone => ?_) htaken
  obtain ⟨t, u, -, hu, hholds⟩ := h.held hdefined hr hsourced hold hfront hm hdone
  obtain ⟨v, hv, hagree⟩ := hholds.agree
  exact ⟨u, hu, hagree.primary.trans hv.primary⟩

/-- What is in the way of a row has been lost: its source does not have it any more. -/
theorem lost_of_blocks (hm : m ∈ r.mirrors) (hblocks : r.Blocks like m (statementsOf front) w db₁) :
    r.Lost like (depth + 1) m front db (w.rowId m.idColumn) := by
  obtain ⟨row, u, rfl, hcreation, -, hu, x, hx, hid⟩ := hblocks
  by_contra hlost
  have hplan := h.plan_eq
  have hdone := backfill_mem hplan hr.ids hm hcreation
  obtain ⟨t, u₀, ht, hu₀, hholds⟩ := h.held hdefined hr hsourced hold hfront hm hdone
  obtain rfl : u = u₀ := Option.some.inj (hu.symm.trans hu₀)
  obtain ⟨y, hy, -, rfl⟩ := Mirror.mem_ownedRows.1 ((hholds.mem_iff (hid ▸ hlost)).1 hx)
  rw [Mirror.only_idColumn] at hid
  obtain ⟨-, hp⟩ := (h.underway hdefined hr hsourced hold hfront).1.sourced.keyed hm ht
  obtain ⟨db₂, hignore⟩ := Option.isSome_iff_exists.1 htaken
  obtain ⟨t₂, t', cs, ht₂, he, -⟩ := change_ignore hignore
  obtain rfl : t = t₂ := Option.some.inj (ht.symm.trans ht₂)
  obtain ⟨i, hi, hfree, -⟩ := Effect.insert_eq_some he
  rw [hp] at hi hfree
  exact hfree y hy (hid.trans hi)

end Refusals

/-- A mirror that is right before and after a write that it misses owns none of the rows changed. -/
theorem spares_of_exact {w : Write V} (h : Interleaves r (front ++ .write w :: back))
    {db₁ : Db V} (hfront : runMoves like depth front db = some db₁)
    (hmove : (Move.write w).run like depth db₁ = some db') (hm : m ∈ r.mirrors)
    (hmissed : r.Misses m (statementsOf front) w) (hexact : r.Exact like m db₁)
    (hexact' : r.Exact like m db') : r.Spares like m w db₁ := by
  obtain ⟨hw, hdone, hcreation⟩ := hmissed
  have hstand := (h.underway hdefined hr hsourced hold hfront).1
  have hplan := h.plan_eq
  intro t t' cs ht he
  have hrun := hstand.run_of_missed like depth hr hm hplan hw (create_mem hplan hr.ids hm hdone)
    hcreation ht he
  have hput : db' = db₁.put m.source t' := by
    have hget := Option.some.inj hmove
    rw [hrun] at hget
    exact hget.symm
  subst hput
  obtain ⟨t₁, u, ht₁, hu, hperm⟩ := hexact
  obtain ⟨t₂, u₂, ht₂, hu₂, hperm'⟩ := hexact'
  rw [Db.put_tables, if_pos rfl] at ht₂
  rw [Db.put_tables, if_neg (hr.apart m hm m hm).symm] at hu₂
  cases hu.symm.trans hu₂
  cases ht₂
  cases ht₁.symm.trans ht
  exact hperm'.symm.trans hperm

/-- Nothing is lost to a mirror just if it has been right at every moment since it was filled. -/
theorem not_lost_iff (h : Interleaves r moves)
    (hrun : runMoves like (depth + 1) moves db = some db') (hm : m ∈ r.mirrors) :
    (∀ id, ¬ r.Lost like (depth + 1) m moves db id) ↔
      ∀ front back db₁, moves = front ++ back → (partFor r m).backfill ∈ statementsOf front →
        runMoves like (depth + 1) front db = some db₁ → r.Exact like m db₁ := by
  constructor
  · rintro hlost front back db₁ rfl hdone hfront
    have hheld := h.held hdefined hr hsourced hold hfront hm hdone
    have hstand := (h.underway hdefined hr hsourced hold hfront).1
    exact hstand.exact_of_held hm hheld fun id hid => hlost id (hid.append back)
  · rintro hexact id ⟨front, w, back, db₁, rfl, hfront, hmissed, hspares, -⟩
    obtain ⟨db₂, hfront₂, hrest⟩ := runMoves_append.1 hrun
    cases hfront.symm.trans hfront₂
    obtain ⟨db₃, hmove, -⟩ := runMoves_cons.1 hrest
    have hexact₁ := hexact front (.write w :: back) db₁ rfl hmissed.2.1 hfront
    have hexact₃ := hexact (front ++ [.write w]) back db₃ (by simp) (by simpa using hmissed.2.1)
      (runMoves_concat.2 ⟨db₁, hfront, hmove⟩)
    exact hspares (h.spares_of_exact hdefined hr hsourced hold hfront hmove hm hmissed hexact₁
      hexact₃)

end

end Interleaves

end Moves

/-- The plan of a registry is run on any database with keyed sources, and a host writes to the sources
between its statements.  A write that is refused changes nothing, and in the end the sources are what
the writes that have gone through would have made of them alone.  When the triggers for such a write
that earlier plans have left are gone, and if its table takes it, it is refused just if a mirror is in
the way, and then for a row that the mirror has lost.  Each mirror has the rows of its source that it
owns, and no others, but for those rows that have been changed by a write which the mirror has missed;
and it has been so at every moment since the mirror was filled just if there are no such rows. -/
theorem mirrors_among_writes {c : Catalog} {s : Setup} (h : Registered c s)
    (hapart : ∀ m ∈ s.mirrors, m.id ∉ s.finalize.sourceTables)
    (like : V → Text → Bool) (depth : Nat) {db db' : Db V} {moves : List (Move V)}
    (hold : ∀ tr ∈ db.triggers, Generated s.finalize tr) (hsourced : s.finalize.Sourced db)
    (hmoves : Interleaves s.finalize moves)
    (hrun : runMoves like (depth + 1) moves db = some db') :
    (∃ plain, runWrites ignore (writesTaken like (depth + 1) moves db) db = some plain ∧
      (∀ x ∈ s.finalize.sourceTables, db'.tables x = plain.tables x) ∧
      ∀ m ∈ s.mirrors,
        (∃ t u, plain.tables m.source = some t ∧ db'.tables m.id = some u ∧ u.Keyed ∧
          ∀ row, ¬ s.finalize.Lost like (depth + 1) m moves db (row m.idColumn) →
            (row ∈ u.rows ↔ row ∈ m.ownedRows like (s.finalize.mirrorsFor m.source) t.rows)) ∧
        ((∀ id, ¬ s.finalize.Lost like (depth + 1) m moves db id) ↔
          ∀ front back db₁, moves = front ++ back →
            (partFor s.finalize m).backfill ∈ statementsOf front →
            runMoves like (depth + 1) front db = some db₁ → s.finalize.Exact like m db₁)) ∧
    ∀ front w back db₁, moves = front ++ .write w :: back →
      runMoves like (depth + 1) front db = some db₁ → (w.run ignore db₁).isSome →
      .dropTrigger (triggerName w.event w.table) ∈ statementsOf front →
        (w.run (fire like (depth + 1)) db₁ = none ↔
          ∃ m ∈ s.mirrors, s.finalize.Blocks like m (statementsOf front) w db₁) ∧
        ∀ m ∈ s.mirrors, s.finalize.Blocks like m (statementsOf front) w db₁ →
          s.finalize.Lost like (depth + 1) m front db (w.rowId m.idColumn) := by
  have hdefined := h.defined
  have hr : s.finalize.Regular :=
    h.regular_of_distinct (fun m hm => hmoves.columns_nodup hrun hm) hapart
  have hall : Interleaves s.finalize (moves ++ []) := by rwa [List.append_nil]
  obtain ⟨hstand, plain, hplain, hsame⟩ := hall.underway hdefined hr hsourced hold hrun
  refine ⟨⟨plain, hplain, hsame, fun m hm => ⟨?_, ?_⟩⟩, ?_⟩
  · have hdone : (partFor s.finalize m).backfill ∈ statementsOf moves := by
      rw [hmoves.statements_eq]
      exact mem_statements.2 (.backfill hm)
    obtain ⟨t, u, ht, hu, hholds⟩ := hall.held hdefined hr hsourced hold hrun hm hdone
    rw [hsame _ (Registry.mem_sourceTables.2 ⟨m, hm, rfl⟩)] at ht
    exact ⟨t, u, ht, hu, hholds.keyed, fun row hrow => hholds.mem_iff hrow⟩
  · exact hmoves.not_lost_iff hdefined hr hsourced hold hrun hm
  · rintro front w back db₁ rfl hfront htaken hdropped
    exact ⟨hmoves.refused_iff hdefined hr hsourced hold hfront htaken hdropped,
      fun m hm hblocks => hmoves.lost_of_blocks hdefined hr hsourced hold hfront htaken hm hblocks⟩

/-! ## An example -/

namespace Sample

/-- The posts with a third one, before anything has been mirrored. -/
def unmirrored : Db Text where
  tables := fun x => if x = "wp_postmeta".toList then
    some ⟨posts.primary, posts.rows ++ [row ['3'] "colour".toList]⟩ else none
  triggers := []

/-- A post gets a colour. -/
def colour (post : Text) : Write Text := .insert "wp_postmeta".toList (row post "colour".toList)

/-- Some writes are made after the mirror has been filled and before there are triggers. -/
def commit (meanwhile : List (Write Text)) : List (Move Text) :=
  (partFor setup.finalize colours).statements.map .statement ++ meanwhile.map .write ++
    ((triggersOf setup.finalize).flatMap fun t => [.dropTrigger t.name, creation t]).map .statement

theorem sourced_unmirrored : setup.finalize.Sourced unmirrored := by
  intro m hm
  rw [List.mem_singleton.1 hm]
  exact ⟨_, rfl, ⟨by decide, by decide⟩, rfl⟩

variable {meanwhile afterwards : List (Write Text)}

theorem mem_of_mem_commit {w : Write Text}
    (h : .write w ∈ commit meanwhile ++ afterwards.map .write) : w ∈ meanwhile ++ afterwards := by
  simpa [commit] using h

theorem interleaves_commit
    (h : ∀ w ∈ meanwhile ++ afterwards,
      w.table = "wp_postmeta".toList ∧ w.KeepsId colours.idColumn) :
    Interleaves setup.finalize (commit meanwhile ++ afterwards.map .write) := by
  refine ⟨?_, ?_, ?_⟩
  · have hwrites : ∀ ws : List (Write Text), statementsOf (ws.map .write) = [] := by
      intro ws
      exact List.filterMap_eq_nil_iff.2 fun move hmove => by
        obtain ⟨w, -, rfl⟩ := List.mem_map.1 hmove
        rfl
    rw [commit, statementsOf_append, statementsOf_append, statementsOf_append, hwrites, hwrites]
    decide
  · intro w hw
    rw [(h w (mem_of_mem_commit hw)).1]
    decide
  · intro w hw m hm _
    rw [List.mem_singleton.1 hm]
    exact (h w (mem_of_mem_commit hw)).2

end Sample

open Sample in
/-- The first post goes, and the mirror misses that, so that the post can not come back.  The third one
is in the mirror. -/
theorem mirrors_among_writes_sample :
    let goes := .delete "wp_postmeta".toList ['1']
    let returns := colour ['1']
    ∃ db₁ db' u, runMoves (fun v p => v == p) 1 (commit [goes]) unmirrored = some db₁ ∧
      returns.run (fire (fun v p => v == p) 1) db₁ = none ∧
      runMoves (fun v p => v == p) 1 (commit [goes] ++ [.write returns]) unmirrored = some db' ∧
      db'.tables colours.id = some u ∧ ∃ x ∈ u.rows, x colours.idColumn = some ['3'] := by
  intro goes returns
  have hmoves : Interleaves setup.finalize (commit [goes] ++ [.write returns]) :=
    @interleaves_commit [goes] [returns] (by simp [goes, returns, colour, Write.table, Write.KeepsId])
  obtain ⟨db₁, hfront⟩ := Option.isSome_iff_exists.1 (by decide +kernel :
    (runMoves (fun v p => v == p) 1 (commit [goes]) unmirrored).isSome)
  obtain ⟨db', hrun⟩ := Option.isSome_iff_exists.1 (by decide +kernel :
    (runMoves (fun v p => v == p) 1 (commit [goes] ++ [.write returns]) unmirrored).isSome)
  obtain ⟨⟨plain, hplain, -, hmirrors⟩, hrefused⟩ := mirrors_among_writes registered (by decide)
    (fun v p => v == p) 0 (fun _ htr => (List.not_mem_nil htr).elim) sourced_unmirrored hmoves hrun
  obtain ⟨⟨t, u, ht, hu, -, hrows⟩, -⟩ := hmirrors colours List.mem_cons_self
  refine ⟨db₁, db', u, hfront, ?_, hrun, hu, ?_⟩
  · have htaken : ((runMoves (fun v p => v == p) 1 (commit [goes]) unmirrored).bind
        (returns.run ignore)).isSome := by decide +kernel
    have hleft : ((runMoves (fun v p => v == p) 1 (commit [goes]) unmirrored).bind
        (·.tables colours.id)).any (·.rows.any (· colours.idColumn = some ['1'])) := by
      decide +kernel
    rw [hfront, Option.bind_some] at htaken hleft
    obtain ⟨u₁, hu₁, hany⟩ := (Option.any_eq_true _ _).1 hleft
    obtain ⟨x, hx, hid⟩ := List.any_eq_true.1 hany
    refine (hrefused _ returns [] db₁ rfl hfront htaken (by decide +kernel)).1.2
      ⟨colours, List.mem_cons_self, _, u₁, rfl, by decide +kernel, by decide, hu₁, x, hx, ?_⟩
    exact decide_eq_true_iff.1 hid
  · have hsource : ((runWrites ignore (writesTaken (fun v p => v == p) 1
        (commit [goes] ++ [.write returns]) unmirrored) unmirrored).bind
          (·.tables colours.source)).any (·.rows.any fun x =>
            x colours.idColumn = some ['3'] ∧ x colours.keyColumn = some "colour".toList) := by
      decide +kernel
    rw [hplain, Option.bind_some, ht, Option.any_some] at hsource
    obtain ⟨x, hx, hcells⟩ := List.any_eq_true.1 hsource
    obtain ⟨hid, hkey⟩ := decide_eq_true_iff.1 hcells
    have honly := (Mirror.only_idColumn (m := colours) x).trans hid
    refine ⟨_, (hrows _ ?_).2 (Mirror.mem_ownedRows.2 ⟨x, hx, ?_, rfl⟩), honly⟩
    · rw [honly]
      rintro ⟨front, w, back, -, hsplit, -, -, -, hlost⟩
      have hw : .write w ∈ commit [goes] ++ [returns].map .write := hsplit ▸ by simp
      rcases List.mem_pair.1 (mem_of_mem_commit hw) with rfl | rfl
      · exact absurd hlost (by decide)
      · exact absurd hlost (by decide)
    · rw [hkey]
      decide

open Sample in
/-- A fourth post gets a colour, and the mirror misses that. -/
theorem mirror_misses_write : Registered .standard setup ∧
    (∀ m ∈ setup.mirrors, m.id ∉ setup.finalize.sourceTables) ∧ unmirrored.triggers = [] ∧
    setup.finalize.Sourced unmirrored ∧ Interleaves setup.finalize (commit [colour ['4']]) ∧
    ∃ db', runMoves (fun v p => v == p) 1 (commit [colour ['4']]) unmirrored = some db' ∧
      ¬ setup.finalize.Exact (fun v p => v == p) colours db' := by
  have hmoves : Interleaves setup.finalize (commit [colour ['4']] ++ [].map .write) :=
    interleaves_commit (by simp [colour, Write.table, Write.KeepsId])
  rw [List.map_nil, List.append_nil] at hmoves
  refine ⟨registered, by decide, rfl, sourced_unmirrored, hmoves, ?_⟩
  obtain ⟨db', hrun⟩ := Option.isSome_iff_exists.1 (by decide +kernel :
    (runMoves (fun v p => v == p) 1 (commit [colour ['4']]) unmirrored).isSome)
  refine ⟨db', hrun, ?_⟩
  rintro ⟨t, u, ht, hu, hperm⟩
  have hmirror : ((runMoves (fun v p => v == p) 1 (commit [colour ['4']]) unmirrored).bind fun db =>
      (db.tables colours.id).map (·.rows.length)) = some 2 := by decide +kernel
  have hsource : ((runMoves (fun v p => v == p) 1 (commit [colour ['4']]) unmirrored).bind fun db =>
      (db.tables colours.source).map fun t => (colours.ownedRows (fun v p => v == p)
        (setup.finalize.mirrorsFor colours.source) t.rows).length) = some 3 := by decide +kernel
  rw [hrun, Option.bind_some, hu, Option.map_some] at hmirror
  rw [hrun, Option.bind_some, ht, Option.map_some] at hsource
  have hlength := hperm.length_eq
  rw [Option.some.inj hmirror, Option.some.inj hsource] at hlength
  cases hlength

end TypedMirror
