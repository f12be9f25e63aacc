import TypedMirror.Proofs.Outcome
import TypedMirror.Proofs.Patterns.Quoting
import TypedMirror.Proofs.Renaming.Deflated
import TypedMirror.Sql.Printer

/-!
# Statements that quote patterns

A statement holds names and patterns.  If its names are words it can be written, and no quote stands
in its text but those around the patterns.

* `names`, `patterns` — what a statement holds, the patterns in the order in which they are written;
* `erase` — the statement with empty patterns;
* `Statement.both_text` — the texts of both are alike but for what stands in the quotes.
-/

namespace TypedMirror

namespace Text

variable {n : Text}

theorem IsWord.quoteless (h : n.IsWord) : n.Quoteless :=
  fun c hc => isQuote_of_isWordChar (h.isWordChar c hc)

end Text

theorem Identifier.quote_of_isWord {n : Text} (h : n.IsWord) :
    quote n = .ok ("`".toList ++ n ++ "`".toList) := by
  have hvalid : isValid n = true := by
    unfold isValid
    rw [Bool.and_eq_true, List.all_eq_true]
    exact ⟨by simp [h.ne_nil], h.isWordChar⟩
  unfold quote validate
  rw [if_pos hvalid]
  rfl

/-- The name can be quoted, and no quote stands in what is written. -/
theorem Identifier.exists_quote {n : Text} (h : n.IsWord) :
    ∃ t, quote n = .ok t ∧ t.Quoteless :=
  ⟨_, quote_of_isWord h, (Text.Quoteless.append (by decide) h.quoteless).append (by decide)⟩

namespace Sql

open Identifier (quote exists_quote)

/-! ## What a statement holds -/

namespace Condition

def names : Condition → List Text
  | .always => []
  | .never => []
  | .same a b => [a.name, b.name]
  | .like key _ => [key.name]
  | .or a b => a.names ++ b.names
  | .and a b => a.names ++ b.names
  | .not a => a.names
  | .group a => a.names
  | .orFalse a => a.names

def patterns : Condition → List Text
  | .always => []
  | .never => []
  | .same _ _ => []
  | .like _ pattern => [pattern]
  | .or a b => a.patterns ++ b.patterns
  | .and a b => a.patterns ++ b.patterns
  | .not a => a.patterns
  | .group a => a.patterns
  | .orFalse a => a.patterns

/-- The condition with empty patterns. -/
def erase : Condition → Condition
  | .always => .always
  | .never => .never
  | .same a b => .same a b
  | .like key _ => .like key []
  | .or a b => .or a.erase b.erase
  | .and a b => .and a.erase b.erase
  | .not a => .not a.erase
  | .group a => .group a.erase
  | .orFalse a => .orFalse a.erase

/-- What some conditions hold, taken together. -/
theorem any_flatMap {α : Type} {f : Condition → List α} (hnever : f .never = [])
    (hor : ∀ a b, f (.or a b) = f a ++ f b) (cs : List Condition) : f (.any cs) = cs.flatMap f := by
  induction cs with
  | nil => exact hnever
  | cons c cs ih =>
    cases cs with
    | nil => simp [any]
    | cons d ds =>
      show f (.or c (any (d :: ds))) = f c ++ (d :: ds).flatMap f
      rw [hor, ih]

theorem names_any (cs : List Condition) : (any cs).names = cs.flatMap names :=
  any_flatMap rfl (fun _ _ => rfl) cs

theorem patterns_any (cs : List Condition) : (any cs).patterns = cs.flatMap patterns :=
  any_flatMap rfl (fun _ _ => rfl) cs

end Condition

namespace RowAction

def names : RowAction → List Text
  | .insert table columns => table :: columns.all
  | .upsert table columns => table :: columns.all
  | .delete table condition => table :: condition.names

def patterns : RowAction → List Text
  | .insert _ _ => []
  | .upsert _ _ => []
  | .delete _ condition => condition.patterns

def erase : RowAction → RowAction
  | .insert table columns => .insert table columns
  | .upsert table columns => .upsert table columns
  | .delete table condition => .delete table condition.erase

end RowAction

namespace BodyPart

def names : BodyPart → List Text
  | .choose branches => branches.flatMap fun b => b.1.names ++ b.2.names
  | .run action => action.names

def patterns : BodyPart → List Text
  | .choose branches => branches.flatMap fun b => b.1.patterns ++ b.2.patterns
  | .run action => action.patterns

def erase : BodyPart → BodyPart
  | .choose branches => .choose (branches.map fun b => (b.1.erase, b.2.erase))
  | .run action => .run action.erase

end BodyPart

namespace Statement

def names : Statement → List Text
  | .dropTrigger name => [name]
  | .dropTable table => [table]
  | .createTable table columns _ => table :: columns.all
  | .backfill table columns source condition =>
    table :: source :: columns.all ++ (condition.map Condition.names).getD []
  | .createTrigger name _ source body => name :: source :: body.flatMap BodyPart.names

def patterns : Statement → List Text
  | .dropTrigger _ => []
  | .dropTable _ => []
  | .createTable _ _ _ => []
  | .backfill _ _ _ condition => (condition.map Condition.patterns).getD []
  | .createTrigger _ _ _ body => body.flatMap BodyPart.patterns

def erase : Statement → Statement
  | .dropTrigger name => .dropTrigger name
  | .dropTable table => .dropTable table
  | .createTable table columns valueType => .createTable table columns valueType
  | .backfill table columns source condition =>
    .backfill table columns source (condition.map Condition.erase)
  | .createTrigger name event source body =>
    .createTrigger name event source (body.map BodyPart.erase)

/-- What stands in the statement outside of quotes are words, and types without quotes. -/
def Writable (s : Statement) : Prop :=
  (∀ n ∈ s.names, n.IsWord) ∧
    ∀ table columns valueType, s = .createTable table columns valueType → valueType.Quoteless

end Statement

/-! ## Columns and conditions -/

theorem Column.exists_text {c : Column} (h : c.name.IsWord) :
    ∃ t, c.text = .ok t ∧ t.Quoteless := by
  obtain ⟨name, hname, hquoteless⟩ := exists_quote h
  unfold Column.text
  rw [hname]
  cases c.row with
  | none => exact ⟨name, rfl, hquoteless⟩
  | some row =>
    have hkeyword : (row.keyword ++ ['.']).Quoteless := by cases row <;> decide
    exact ⟨row.keyword ++ '.' :: name, rfl, by simpa using hkeyword.append hquoteless⟩

theorem both_joined {ps qs : List Text} {sep : Text} {e e' d d' : Except MirrorError Text}
    (hsep : sep.Quoteless) (h : Both (Quoting ps) e e') (h' : Both (Quoting qs) d d') :
    Both (Quoting (ps ++ qs)) (do return (← e) ++ sep ++ (← d))
      (do return (← e') ++ sep ++ (← d')) :=
  h.bind fun _ _ ht => h'.bind fun _ _ hu => .done ((ht.ahead hsep).append hu)

/-- A condition can be written with its patterns and with empty ones. -/
theorem Condition.both_text (c : Condition) (h : ∀ n ∈ c.names, n.IsWord) :
    Both (Quoting c.patterns) c.text c.erase.text := by
  induction c with
  | always => exact .done (.done (by decide))
  | never => exact .done (.done (by decide))
  | same a b =>
    refine .same (Column.exists_text (h a.name (by simp [names]))) fun t ht => ?_
    refine .same (Column.exists_text (h b.name (by simp [names]))) fun u hu => ?_
    exact .done (.done ((ht.append (by decide)).append hu))
  | like key pattern =>
    refine .same (Column.exists_text (h key.name (by simp [names]))) fun t ht => ?_
    exact .done ((Quoting.single pattern).behind (ht.append (by decide)))
  | or a b iha ihb =>
    obtain ⟨ha, hb⟩ := List.forall_mem_append.1 h
    exact both_joined (by decide) (iha ha) (ihb hb)
  | and a b iha ihb =>
    obtain ⟨ha, hb⟩ := List.forall_mem_append.1 h
    exact both_joined (by decide) (iha ha) (ihb hb)
  | not a ih => exact (ih h).bind fun t t' ht => .done (ht.behind (by decide))
  | group a ih =>
    exact (ih h).bind fun t t' ht => .done ((ht.behind (t := ['(']) (by decide)).ahead (by decide))
  | orFalse a ih =>
    exact (ih h).bind fun t t' ht => .done ((ht.behind (by decide)).ahead (by decide))

/-! ## What is done to a row -/

theorem Columns.exists_quoted {c : Columns} (h : ∀ n ∈ c.all, n.IsWord) :
    ∃ q, c.quoted = .ok q ∧ ∀ n ∈ q.all, n.Quoteless := by
  obtain ⟨hid, hobject, hkey, hvalue⟩ := by simpa [Columns.all] using h
  obtain ⟨id, hid, hid'⟩ := exists_quote hid
  obtain ⟨object, hobject, hobject'⟩ := exists_quote hobject
  obtain ⟨key, hkey, hkey'⟩ := exists_quote hkey
  obtain ⟨value, hvalue, hvalue'⟩ := exists_quote hvalue
  refine ⟨⟨id, object, key, value⟩, ?_, by simp [Columns.all, *]⟩
  unfold Columns.quoted
  rw [hid, hobject, hkey, hvalue]
  rfl

theorem Columns.quoteless_listed {c : Columns} {lead : String} (h : ∀ n ∈ c.all, n.Quoteless)
    (hlead : Text.Quoteless lead.toList) : (c.listed lead).Quoteless := by
  refine .joinWith (by decide) ?_
  intro t ht
  obtain ⟨n, hn, rfl⟩ := List.mem_map.1 ht
  exact hlead.append (h n hn)

theorem quoteless_insertion {table : Text} {c : Columns} (ht : table.Quoteless)
    (hc : ∀ n ∈ c.all, n.Quoteless) : (insertion table c).Quoteless := by
  have hbare : (c.listed "").Quoteless := Columns.quoteless_listed hc (by decide)
  have hnew : (c.listed "NEW.").Quoteless := Columns.quoteless_listed hc (by decide)
  unfold insertion
  simp only [Text.quoteless_append, ht, hbare, hnew]
  decide

theorem RowAction.both_text (a : RowAction) (h : ∀ n ∈ a.names, n.IsWord) :
    Both (Quoting a.patterns) a.text a.erase.text := by
  cases a with
  | insert table columns =>
    obtain ⟨htable, hcolumns⟩ := List.forall_mem_cons.1 h
    refine .same (exists_quote htable) fun t ht => ?_
    refine .same (Columns.exists_quoted hcolumns) fun c hc => ?_
    exact .done (.done (quoteless_insertion ht hc))
  | upsert table columns =>
    obtain ⟨htable, hcolumns⟩ := List.forall_mem_cons.1 h
    refine .same (exists_quote htable) fun t ht => ?_
    refine .same (Columns.exists_quoted hcolumns) fun c hc => ?_
    refine .done (.done (((quoteless_insertion ht hc).append (by decide)).append ?_))
    refine .joinWith (by decide) ?_
    intro t ht
    obtain ⟨n, hn, rfl⟩ := List.mem_map.1 ht
    have hquoteless := hc n (List.mem_cons_of_mem _ hn)
    exact (hquoteless.append (by decide)).append hquoteless
  | delete table condition =>
    obtain ⟨htable, hcondition⟩ := List.forall_mem_cons.1 h
    refine .same (exists_quote htable) fun t ht => ?_
    refine (condition.both_text hcondition).bind fun u u' hu => .done (hu.behind ?_)
    exact (Text.Quoteless.append (by decide) ht).append (by decide)

/-! ## Bodies of triggers -/

/-- Lines with the patterns quoted in them, and the same lines with empty ones. -/
inductive Lines : List Text → List Text → List Text → Prop
  | nil : Lines [] [] []
  | cons {ps qs : List Text} {l l' : Text} {ls ls' : List Text} (h : Quoting ps l l')
    (hs : Lines qs ls ls') : Lines (ps ++ qs) (l :: ls) (l' :: ls')

namespace Lines

variable {ps qs : List Text} {l l' sep : Text} {ls ls' ms ms' : List Text}

theorem single (h : Quoting ps l l') : Lines ps [l] [l'] := by
  simpa using cons h nil

theorem append (h : Lines ps ls ls') (hm : Lines qs ms ms') :
    Lines (ps ++ qs) (ls ++ ms) (ls' ++ ms') := by
  induction h with
  | nil => exact hm
  | cons h _ ih => simpa using cons h ih

theorem snoc (h : Lines ps ls ls') (hl : l.Quoteless) : Lines ps (ls ++ [l]) (ls' ++ [l]) := by
  simpa using h.append (single (.done hl))

theorem joinWith (h : Lines ps ls ls') (hsep : sep.Quoteless) :
    Quoting ps (Text.joinWith sep ls) (Text.joinWith sep ls') := by
  unfold Text.joinWith
  induction h with
  | nil => exact .done (by simp)
  | cons h hs ih =>
    cases hs with
    | nil => simpa using h
    | cons hm hms =>
      rw [List.intercalate_cons_cons, List.intercalate_cons_cons]
      exact (h.ahead hsep).append ih

/-- What stands in some parts, one after the other, if each part can be written. -/
theorem mapM {α : Type} {f : α → Except MirrorError (List Text)} {g : α → α} {k : α → List Text}
    {xs : List α} (h : ∀ x ∈ xs, Both (Lines (k x)) (f x) (f (g x))) :
    Both (fun lss lss' => Lines (xs.flatMap k) lss.flatten lss'.flatten) (xs.mapM f)
      ((xs.map g).mapM f) := by
  induction xs with
  | nil => exact .done .nil
  | cons x xs ih =>
    obtain ⟨hx, hxs⟩ := List.forall_mem_cons.1 h
    rw [List.map_cons, List.mapM_cons, List.mapM_cons]
    exact hx.bind fun ls ls' hl => (ih hxs).bind fun lss lss' hls => .done (hl.append hls)

end Lines

theorem both_branchLines {keyword : String} (hkeyword : Text.Quoteless keyword.toList)
    (b : Condition × RowAction) (h : ∀ n ∈ b.1.names ++ b.2.names, n.IsWord) :
    Both (Lines (b.1.patterns ++ b.2.patterns)) (branchLines keyword b)
      (branchLines keyword (b.1.erase, b.2.erase)) := by
  obtain ⟨hc, ha⟩ := List.forall_mem_append.1 h
  refine (b.1.both_text hc).bind fun t t' ht => (b.2.both_text ha).bind fun u u' hu => .done ?_
  refine .cons ?_ (.single ?_)
  · have hlead : (margin ++ keyword.toList ++ [' ']).Quoteless :=
      (Text.Quoteless.append (by decide) hkeyword).append (by decide)
    simpa using (ht.behind hlead).ahead (u := " THEN".toList) (by decide)
  · exact (hu.behind (by decide)).ahead (by decide)

theorem BodyPart.both_lines (p : BodyPart) (h : ∀ n ∈ p.names, n.IsWord) :
    Both (Lines p.patterns) p.lines p.erase.lines := by
  cases p with
  | run action =>
    refine (action.both_text h).bind fun t t' ht => .done (.single ?_)
    exact (ht.behind (by decide)).ahead (by decide)
  | choose branches =>
    cases branches with
    | nil => exact .done .nil
    | cons b bs =>
      obtain ⟨hb, hbs⟩ := List.forall_mem_append.1 h
      have hothers : ∀ x ∈ bs, Both (Lines (x.1.patterns ++ x.2.patterns)) (branchLines "ELSEIF" x)
          (branchLines "ELSEIF" (x.1.erase, x.2.erase)) := fun x hx =>
        both_branchLines (by decide) x fun n hn => hbs n (List.mem_flatMap.2 ⟨x, hx, hn⟩)
      refine (both_branchLines (by decide) b hb).bind fun ls ls' hl => ?_
      exact (Lines.mapM hothers).bind fun lss lss' hls => .done ((hl.append hls).snoc (by decide))

/-! ## Statements -/

theorem quoteless_tableLines {c : Columns} {valueType : Text} (hc : ∀ n ∈ c.all, n.Quoteless)
    (ht : valueType.Quoteless) : ∀ l ∈ (tableLines c valueType).map (margin ++ ·), l.Quoteless := by
  obtain ⟨hid, hobject, hkey, hvalue⟩ := by simpa [Columns.all] using hc
  simp only [tableLines, List.forall_mem_map, List.forall_mem_cons, Text.quoteless_append,
    Text.quoteless_cons, hid, hobject, hkey, hvalue, ht]
  decide

/-- A statement can be written with its patterns and with empty ones. -/
theorem Statement.both_text (s : Statement) (h : s.Writable) :
    Both (Quoting s.patterns) s.text s.erase.text := by
  obtain ⟨hnames, htype⟩ := h
  cases s with
  | dropTrigger name =>
    refine .same (exists_quote (hnames name List.mem_cons_self)) fun t ht => ?_
    exact .done (.done (.append (by decide) ht))
  | dropTable table =>
    refine .same (exists_quote (hnames table List.mem_cons_self)) fun t ht => ?_
    exact .done (.done (.append (by decide) ht))
  | createTable table columns valueType =>
    obtain ⟨htable, hcolumns⟩ := List.forall_mem_cons.1 hnames
    refine .same (exists_quote htable) fun t ht => ?_
    refine .same (Columns.exists_quoted hcolumns) fun c hc => .done (.done ?_)
    have hlines : Text.Quoteless (Text.joinWith ",\n".toList _) :=
      .joinWith (by decide) (quoteless_tableLines hc (htype _ _ _ rfl))
    simp only [Text.quoteless_append, ht, hlines]
    decide
  | backfill table columns source condition =>
    obtain ⟨htable, hnames⟩ := List.forall_mem_cons.1 hnames
    obtain ⟨hsource, hnames⟩ := List.forall_mem_cons.1 hnames
    obtain ⟨hcolumns, hcondition⟩ := List.forall_mem_append.1 hnames
    refine .same (exists_quote htable) fun t ht => ?_
    refine .same (exists_quote hsource) fun u hu => ?_
    refine .same (Columns.exists_quoted hcolumns) fun c hc => ?_
    have hcopy : Text.Quoteless ("INSERT INTO ".toList ++ t ++ " (".toList ++ c.listed "" ++
        ") SELECT ".toList ++ c.listed "" ++ " FROM ".toList ++ u) := by
      have hlisted : (c.listed "").Quoteless := Columns.quoteless_listed hc (by decide)
      simp only [Text.quoteless_append, ht, hu, hlisted]
      decide
    cases condition with
    | none => exact .done (.done hcopy)
    | some condition =>
      refine (condition.both_text hcondition).bind fun v v' hv => .done (hv.behind ?_)
      exact hcopy.append (by decide)
  | createTrigger name event source body =>
    obtain ⟨hname, hnames⟩ := List.forall_mem_cons.1 hnames
    obtain ⟨hsource, hbody⟩ := List.forall_mem_cons.1 hnames
    have hlines : ∀ p ∈ body, Both (Lines p.patterns) p.lines p.erase.lines := fun p hp =>
      p.both_lines fun n hn => hbody n (List.mem_flatMap.2 ⟨p, hp, hn⟩)
    refine (Lines.mapM hlines).bind fun lss lss' hls => ?_
    refine .same (exists_quote hname) fun t ht => ?_
    refine .same (exists_quote hsource) fun u hu => .done ?_
    refine ((hls.joinWith (by decide)).behind ?_).ahead (by decide)
    have hevent : event.keyword.Quoteless := by cases event <;> decide
    simp only [Text.quoteless_append, ht, hu, hevent]
    decide

end Sql

end TypedMirror
