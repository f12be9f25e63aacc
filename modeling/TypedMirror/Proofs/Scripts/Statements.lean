import TypedMirror.Proofs.Patterns
import TypedMirror.Proofs.Scripts.Client

/-!
# Statements in a script

What stands in a statement outside of its strings are words, names and signs.  A semicolon is found
in the bodies of triggers only, a slash nowhere, and no line starts as one that is for the client.

* `Condition.inline_text`, `RowAction.inline_text` — what stands on one line;
* `Statement.silent_text` — what stands outside of the strings of a statement;
* `Statement.Writable.isStatement` — a statement is read up to a delimiter that it does not hold.
-/

namespace TypedMirror

/-! ## Characters on one line -/

namespace Text

/-- The characters of names and signs, blanks and empty strings. -/
def isInline (c : Char) : Bool := isWordChar c || " `.,()='".toList.contains c

def Inline (t : Text) : Prop := ∀ c ∈ t, isInline c = true

instance (t : Text) : Decidable t.Inline := List.decidableBAll _ t

variable {t u : Text}

@[simp] theorem inline_append : Inline (t ++ u) ↔ t.Inline ∧ u.Inline := List.forall_mem_append

@[simp] theorem inline_cons {c : Char} : Inline (c :: t) ↔ isInline c = true ∧ t.Inline :=
  List.forall_mem_cons

theorem Inline.joinWith {sep : Text} {ts : List Text} (hsep : sep.Inline)
    (h : ∀ t ∈ ts, Inline t) : Inline (Text.joinWith sep ts) := by
  intro c hc
  rcases mem_joinWith hc with hc | ⟨t, ht, hc⟩
  · exact hsep c hc
  · exact h t ht c hc

theorem Inline.ne {c d : Char} (h : t.Inline) (hc : c ∈ t) (hd : isInline d = false) : c ≠ d := by
  rintro rfl
  rw [h c hc] at hd
  cases hd

/-- The text does not end in a blank. -/
def EndsSolid (t : Text) : Prop := ∃ a c, t = a ++ [c] ∧ isBlank c = false

theorem EndsSolid.behind (h : t.EndsSolid) (a : Text) : (a ++ t).EndsSolid := by
  obtain ⟨b, c, rfl, hc⟩ := h
  exact ⟨a ++ b, c, by simp, hc⟩

theorem endsSolid_append {c : Char} (hc : isBlank c = false) (a : Text) : (a ++ [c]).EndsSolid :=
  ⟨a, c, rfl, hc⟩

theorem EndsSolid.last (h : t.EndsSolid) : ∀ c ∈ t.getLast?, isBlank c = false := by
  obtain ⟨a, c, rfl, hc⟩ := h
  intro d hd
  rw [List.getLast?_append, List.getLast?_singleton] at hd
  cases hd
  exact hc

end Text

theorem ValueType.inline_columnType (t : ValueType) (args : List Nat) :
    (t.columnType args).Inline := by
  have hkeyword : t.keyword.Inline := by cases t <;> decide
  have hargs : (joinArgs [','] args).Inline := by
    refine .joinWith (by decide) ?_
    intro a ha c hc
    obtain ⟨n, -, rfl⟩ := List.mem_map.1 ha
    simp [Text.isInline, Text.isWordChar, Char.isAlphanum, Numeral.isDigit_of_mem_write hc]
  unfold columnType
  split
  · exact hkeyword
  split
  · split
    · decide
    · exact hkeyword
  · simp only [Text.inline_append, Text.inline_cons, hkeyword, hargs]
    decide

namespace Sql

open Identifier (quote)

variable {n t : Text}

theorem quote_eq_ok (h : quote n = .ok t) : t = "`".toList ++ n ++ "`".toList ∧ n.Inline := by
  obtain ⟨_, hvalid, rfl⟩ := map_eq_ok.1 h
  refine ⟨rfl, fun c hc => ?_⟩
  unfold Identifier.validate at hvalid
  split at hvalid
  · rename_i hn
    have hword := List.all_eq_true.1 (Bool.and_eq_true_iff.1 hn).2 c hc
    simp [Text.isInline, hword]
  · cases hvalid

theorem inline_quote (h : quote n = .ok t) : t.Inline := by
  obtain ⟨rfl, hn⟩ := quote_eq_ok h
  simp only [Text.inline_append, hn]
  decide

theorem endsSolid_quote (h : quote n = .ok t) : t.EndsSolid := by
  obtain ⟨rfl, -⟩ := quote_eq_ok h
  exact Text.endsSolid_append (by decide) _

/-! ## Columns and conditions -/

theorem Column.text_eq_ok {c : Column} (h : c.text = .ok t) :
    ∃ name lead, quote c.name = .ok name ∧ t = lead ++ name ∧ lead.Inline := by
  obtain ⟨name, hname, h⟩ := bind_eq_ok.1 h
  cases h
  cases hrow : c.row with
  | none => exact ⟨name, [], hname, rfl, by decide⟩
  | some row =>
    exact ⟨name, row.keyword ++ ['.'], hname, by simp, by cases row <;> decide⟩

theorem Column.inline_text {c : Column} (h : c.text = .ok t) : t.Inline := by
  obtain ⟨name, lead, hname, rfl, hlead⟩ := Column.text_eq_ok h
  exact Text.inline_append.2 ⟨hlead, inline_quote hname⟩

theorem Column.endsSolid_text {c : Column} (h : c.text = .ok t) : t.EndsSolid := by
  obtain ⟨name, lead, hname, rfl, -⟩ := Column.text_eq_ok h
  exact (endsSolid_quote hname).behind lead

theorem joined_eq_ok {e d : Except MirrorError Text} {sep : Text}
    (h : (do return (← e) ++ sep ++ (← d)) = .ok t) :
    ∃ u v, e = .ok u ∧ d = .ok v ∧ t = u ++ sep ++ v := by
  obtain ⟨u, hu, h⟩ := bind_eq_ok.1 h
  obtain ⟨v, hv, h⟩ := bind_eq_ok.1 h
  exact ⟨u, v, hu, hv, (Except.ok.inj h).symm⟩

theorem inline_joined {u v sep : Text} (hu : u.Inline) (hsep : sep.Inline) (hv : v.Inline) :
    (u ++ sep ++ v).Inline :=
  Text.inline_append.2 ⟨Text.inline_append.2 ⟨hu, hsep⟩, hv⟩

/-- With empty patterns, a condition stands on one line. -/
theorem Condition.inline_text {c : Condition} (h : c.erase.text = .ok t) : t.Inline := by
  induction c generalizing t with
  | always =>
    cases h
    decide
  | never =>
    cases h
    decide
  | same a b =>
    obtain ⟨u, v, hu, hv, rfl⟩ := joined_eq_ok h
    exact inline_joined (Column.inline_text hu) (by decide) (Column.inline_text hv)
  | like key pattern =>
    obtain ⟨u, hu, h⟩ := bind_eq_ok.1 h
    cases h
    simp only [Text.inline_append, Column.inline_text hu]
    decide
  | or a b iha ihb =>
    obtain ⟨u, v, hu, hv, rfl⟩ := joined_eq_ok h
    exact inline_joined (iha hu) (by decide) (ihb hv)
  | and a b iha ihb =>
    obtain ⟨u, v, hu, hv, rfl⟩ := joined_eq_ok h
    exact inline_joined (iha hu) (by decide) (ihb hv)
  | not a ih =>
    obtain ⟨u, hu, h⟩ := bind_eq_ok.1 h
    cases h
    simp only [Text.inline_append, ih hu]
    decide
  | group a ih =>
    obtain ⟨u, hu, h⟩ := bind_eq_ok.1 h
    cases h
    simp only [Text.inline_append, Text.inline_cons, ih hu]
    decide
  | orFalse a ih =>
    obtain ⟨u, hu, h⟩ := bind_eq_ok.1 h
    cases h
    simp only [Text.inline_append, ih hu]
    decide

theorem Condition.endsSolid_text {c : Condition} (h : c.text = .ok t) : t.EndsSolid := by
  induction c generalizing t with
  | always =>
    cases h
    exact Text.endsSolid_append (c := 'E') (by decide) "TRU".toList
  | never =>
    cases h
    exact Text.endsSolid_append (c := 'E') (by decide) "FALS".toList
  | same a b =>
    obtain ⟨u, v, -, hv, rfl⟩ := joined_eq_ok h
    exact (Column.endsSolid_text hv).behind _
  | like key pattern =>
    obtain ⟨u, -, h⟩ := bind_eq_ok.1 h
    cases h
    exact (Text.endsSolid_append (by decide) _).behind _
  | or a b iha ihb =>
    obtain ⟨u, v, -, hv, rfl⟩ := joined_eq_ok h
    exact (ihb hv).behind _
  | and a b iha ihb =>
    obtain ⟨u, v, -, hv, rfl⟩ := joined_eq_ok h
    exact (ihb hv).behind _
  | not a ih =>
    obtain ⟨u, hu, h⟩ := bind_eq_ok.1 h
    cases h
    exact (ih hu).behind _
  | group a ih =>
    obtain ⟨u, -, h⟩ := bind_eq_ok.1 h
    cases h
    exact Text.endsSolid_append (by decide) _
  | orFalse a ih =>
    obtain ⟨u, -, h⟩ := bind_eq_ok.1 h
    cases h
    exact (Text.endsSolid_append (c := ')') (by decide) ", FALSE".toList).behind _

/-! ## What is done to a row -/

theorem Columns.inline_quoted {c q : Columns} (h : c.quoted = .ok q) : ∀ n ∈ q.all, n.Inline := by
  obtain ⟨id, hid, h⟩ := bind_eq_ok.1 h
  obtain ⟨object, hobject, h⟩ := bind_eq_ok.1 h
  obtain ⟨key, hkey, h⟩ := bind_eq_ok.1 h
  obtain ⟨value, hvalue, h⟩ := bind_eq_ok.1 h
  cases h
  simp [Columns.all, inline_quote hid, inline_quote hobject, inline_quote hkey, inline_quote hvalue]

theorem Columns.inline_listed {c : Columns} {lead : String} (h : ∀ n ∈ c.all, n.Inline)
    (hlead : Text.Inline lead.toList) : (c.listed lead).Inline := by
  refine .joinWith (by decide) ?_
  intro t ht
  obtain ⟨n, hn, rfl⟩ := List.mem_map.1 ht
  exact Text.inline_append.2 ⟨hlead, h n hn⟩

theorem inline_insertion {table : Text} {c : Columns} (ht : table.Inline)
    (hc : ∀ n ∈ c.all, n.Inline) : (insertion table c).Inline := by
  have hbare : (c.listed "").Inline := Columns.inline_listed hc (by decide)
  have hnew : (c.listed "NEW.").Inline := Columns.inline_listed hc (by decide)
  unfold insertion
  simp only [Text.inline_append, ht, hbare, hnew]
  decide

/-- With empty patterns, so does an action. -/
theorem RowAction.inline_text {a : RowAction} (h : a.erase.text = .ok t) : t.Inline := by
  cases a with
  | insert table columns =>
    obtain ⟨u, hu, h⟩ := bind_eq_ok.1 h
    obtain ⟨c, hc, h⟩ := bind_eq_ok.1 h
    cases h
    exact inline_insertion (inline_quote hu) (Columns.inline_quoted hc)
  | upsert table columns =>
    obtain ⟨u, hu, h⟩ := bind_eq_ok.1 h
    obtain ⟨c, hc, h⟩ := bind_eq_ok.1 h
    cases h
    have hassign : Text.Inline (Text.joinWith ", ".toList
        ([c.object, c.key, c.value].map fun column => column ++ " = NEW.".toList ++ column)) := by
      refine .joinWith (by decide) ?_
      intro t ht
      obtain ⟨n, hn, rfl⟩ := List.mem_map.1 ht
      have hinline := Columns.inline_quoted hc n (List.mem_cons_of_mem _ hn)
      simp only [Text.inline_append, hinline]
      decide
    simp only [Text.inline_append, hassign,
      inline_insertion (inline_quote hu) (Columns.inline_quoted hc)]
    decide
  | delete table condition =>
    obtain ⟨u, hu, h⟩ := bind_eq_ok.1 h
    obtain ⟨v, hv, h⟩ := bind_eq_ok.1 h
    cases h
    simp only [Text.inline_append, inline_quote hu, condition.inline_text hv]
    decide

/-! ## Bodies of triggers -/

/-- A line of a trigger's body. -/
def IsBodyLine (l : Text) : Prop := ∃ x, l = margin ++ x ∧ ∀ c ∈ x, Text.isInline c = true ∨ c = ';'

theorem IsBodyLine.of_inline {x : Text} (hx : x.Inline) {y : Text} (hy : y = [] ∨ y = [';']) :
    IsBodyLine (margin ++ x ++ y) := by
  refine ⟨x ++ y, by simp, List.forall_mem_append.2 ⟨fun c hc => .inl (hx c hc), ?_⟩⟩
  rcases hy with rfl | rfl
  · exact fun c hc => absurd hc List.not_mem_nil
  · exact fun c hc => .inr (List.mem_singleton.1 hc)

theorem isBodyLine_branchLines {keyword : String} (hkeyword : Text.Inline keyword.toList)
    {b : Condition × RowAction} {ls : List Text}
    (h : branchLines keyword (b.1.erase, b.2.erase) = .ok ls) : ∀ l ∈ ls, IsBodyLine l := by
  obtain ⟨t, ht, h⟩ := bind_eq_ok.1 h
  obtain ⟨u, hu, h⟩ := bind_eq_ok.1 h
  cases h
  have hfirst : Text.Inline (keyword.toList ++ ' ' :: t ++ " THEN".toList) := by
    simp only [Text.inline_append, Text.inline_cons, hkeyword, b.1.inline_text ht]
    decide
  have hsecond : Text.Inline (margin ++ u) := Text.inline_append.2 ⟨by decide, b.2.inline_text hu⟩
  refine List.forall_mem_cons.2 ⟨?_, List.forall_mem_singleton.2 ?_⟩
  · simpa using IsBodyLine.of_inline hfirst (.inl rfl)
  · simpa using IsBodyLine.of_inline hsecond (.inr rfl)

theorem mapM_forall {α β ε : Type} {f : α → Except ε (List β)} {P : β → Prop} {xs : List α}
    {yss : List (List β)} (hf : ∀ x ∈ xs, ∀ ys, f x = .ok ys → ∀ y ∈ ys, P y)
    (h : xs.mapM f = .ok yss) : ∀ y ∈ yss.flatten, P y := by
  induction xs generalizing yss with
  | nil =>
    cases h
    exact fun y hy => absurd hy List.not_mem_nil
  | cons x xs ih =>
    rw [List.mapM_cons] at h
    obtain ⟨ys, hys, h⟩ := bind_eq_ok.1 h
    obtain ⟨zss, hzss, h⟩ := bind_eq_ok.1 h
    cases h
    obtain ⟨hx, hxs⟩ := List.forall_mem_cons.1 hf
    exact List.forall_mem_append.2 ⟨hx ys hys, ih hxs hzss⟩

theorem BodyPart.isBodyLine_lines {p : BodyPart} {ls : List Text} (h : p.erase.lines = .ok ls) :
    ∀ l ∈ ls, IsBodyLine l := by
  cases p with
  | run action =>
    obtain ⟨t, ht, h⟩ := bind_eq_ok.1 h
    cases h
    exact List.forall_mem_singleton.2 (.of_inline (action.inline_text ht) (.inr rfl))
  | choose branches =>
    cases branches with
    | nil =>
      cases h
      exact fun l hl => absurd hl List.not_mem_nil
    | cons b bs =>
      obtain ⟨ls, hls, h⟩ := bind_eq_ok.1 h
      obtain ⟨lss, hlss, h⟩ := bind_eq_ok.1 h
      cases h
      refine List.forall_mem_append.2 ⟨List.forall_mem_append.2 ⟨?_, ?_⟩, ?_⟩
      · exact isBodyLine_branchLines (by decide) hls
      · refine mapM_forall ?_ hlss
        intro x hx ys hys
        obtain ⟨y, -, rfl⟩ := List.mem_map.1 hx
        exact isBodyLine_branchLines (by decide) hys
      · exact List.forall_mem_singleton.2
          (.of_inline (x := "END IF".toList) (by decide) (.inr rfl))

/-! ## Statements -/

open Script (Silent IsStatement directive?_of_head directive?_drop)

theorem silent_of_inline {mark : Char} (hmark : Text.isInline mark = false) (h : t.Inline) :
    Silent mark false t :=
  .of_line (fun _ hc => ⟨h.ne hc hmark, h.ne hc (by decide)⟩) nofun

theorem silent_margin {mark : Char} (hmark : mark ≠ ' ') (h : ∀ c ∈ t, c ≠ mark ∧ c ≠ '\n') :
    Silent mark true (margin ++ t) := by
  refine .of_line (List.forall_mem_append.2 ⟨?_, h⟩) ?_
  · intro c hc
    obtain rfl : c = ' ' := List.eq_of_mem_replicate (n := 2) hc
    exact ⟨hmark.symm, by decide⟩
  · rintro - c ⟨⟩
    decide

namespace Statement

/-- The first character of the delimiter that ends the statement. -/
def mark : Statement → Char
  | .createTrigger _ _ _ _ => '/'
  | _ => ';'

variable {s : Statement}

/-- The lines that define a table. -/
theorem silent_tableLines {c : Columns} {valueType : Text} (hc : ∀ n ∈ c.all, n.Inline)
    (ht : valueType.Inline) :
    ∀ l ∈ (tableLines c valueType).map (margin ++ ·), Silent ';' true l := by
  obtain ⟨hid, hobject, hkey, hvalue⟩ := by simpa [Columns.all] using hc
  have hlines : ∀ l ∈ tableLines c valueType, Text.Inline l := by
    simp only [tableLines, List.forall_mem_cons, Text.inline_append, Text.inline_cons, hid, hobject,
      hkey, hvalue, ht]
    decide
  rw [List.forall_mem_map]
  intro l hl
  exact silent_margin (by decide) fun c hc => ⟨(hlines l hl).ne hc (by decide),
    (hlines l hl).ne hc (by decide)⟩

theorem silent_bodyLine {l : Text} (h : IsBodyLine l) : Silent '/' true l := by
  obtain ⟨x, rfl, hx⟩ := h
  refine silent_margin (by decide) fun c hc => ?_
  constructor
  all_goals
    rintro rfl
    exact absurd (hx _ hc) (by decide)

/-- With empty patterns, nothing in a statement is for the client. -/
theorem silent_text (h : s.erase.text = .ok t)
    (htype : ∀ table columns valueType, s = .createTable table columns valueType →
      valueType.Inline) : Silent s.mark false t := by
  cases s with
  | dropTrigger name =>
    obtain ⟨u, hu, h⟩ := bind_eq_ok.1 h
    cases h
    exact silent_of_inline rfl (Text.inline_append.2 ⟨by decide, inline_quote hu⟩)
  | dropTable table =>
    obtain ⟨u, hu, h⟩ := bind_eq_ok.1 h
    cases h
    exact silent_of_inline rfl (Text.inline_append.2 ⟨by decide, inline_quote hu⟩)
  | createTable table columns valueType =>
    obtain ⟨u, hu, h⟩ := bind_eq_ok.1 h
    obtain ⟨c, hc, h⟩ := bind_eq_ok.1 h
    cases h
    have hlead : Silent ';' false ("CREATE TABLE ".toList ++ u) :=
      silent_of_inline (by decide) (Text.inline_append.2 ⟨by decide, inline_quote hu⟩)
    have hlines : Silent ';' true (Text.joinWith ",\n".toList _) :=
      .joinWith (by simp [Silent])
        (silent_tableLines (Columns.inline_quoted hc) (htype _ _ _ rfl))
    exact ((hlead.append (by simp [Silent])).append hlines).append (by simp [Silent])
  | backfill table columns source condition =>
    obtain ⟨u, hu, h⟩ := bind_eq_ok.1 h
    obtain ⟨v, hv, h⟩ := bind_eq_ok.1 h
    obtain ⟨c, hc, h⟩ := bind_eq_ok.1 h
    refine silent_of_inline rfl ?_
    have hcopy : Text.Inline ("INSERT INTO ".toList ++ u ++ " (".toList ++ c.listed "" ++
        ") SELECT ".toList ++ c.listed "" ++ " FROM ".toList ++ v) := by
      have hlisted : (c.listed "").Inline :=
        Columns.inline_listed (Columns.inline_quoted hc) (by decide)
      simp only [Text.inline_append, inline_quote hu, inline_quote hv, hlisted]
      decide
    cases condition with
    | none =>
      cases h
      exact hcopy
    | some condition =>
      obtain ⟨w, hw, h⟩ := bind_eq_ok.1 h
      cases h
      exact Text.inline_append.2
        ⟨Text.inline_append.2 ⟨hcopy, by decide⟩, condition.inline_text hw⟩
  | createTrigger name event source body =>
    obtain ⟨lss, hlss, h⟩ := bind_eq_ok.1 h
    obtain ⟨u, hu, h⟩ := bind_eq_ok.1 h
    obtain ⟨v, hv, h⟩ := bind_eq_ok.1 h
    cases h
    have hlead : Silent '/' false ("CREATE TRIGGER ".toList ++ u ++ " AFTER ".toList ++
        event.keyword ++ " ON ".toList ++ v) := by
      have hevent : event.keyword.Inline := by cases event <;> decide
      refine silent_of_inline (by decide) ?_
      simp only [Text.inline_append, inline_quote hu, inline_quote hv, hevent]
      decide
    have hlines : ∀ l ∈ lss.flatten, Silent '/' true l := by
      refine fun l hl => silent_bodyLine (mapM_forall ?_ hlss l hl)
      intro x hx ls hls
      obtain ⟨p, -, rfl⟩ := List.mem_map.1 hx
      exact BodyPart.isBodyLine_lines hls
    exact ((hlead.append (by simp [Silent])).append
      (.joinWith (by simp [Silent]) hlines)).append (by simp [Silent])

/-- What statements start with. -/
def leads : List Text :=
  ["DROP TRIGGER IF EXISTS ", "DROP TABLE IF EXISTS ", "CREATE TABLE ", "INSERT INTO ",
    "CREATE TRIGGER "].map String.toList

theorem exists_lead (h : s.text = .ok t) : ∃ lead ∈ leads, lead <+: t := by
  cases s with
  | dropTrigger name =>
    obtain ⟨u, -, h⟩ := bind_eq_ok.1 h
    cases h
    exact ⟨_, by decide, List.prefix_append _ _⟩
  | dropTable table =>
    obtain ⟨u, -, h⟩ := bind_eq_ok.1 h
    cases h
    exact ⟨_, by decide, List.prefix_append _ _⟩
  | createTable table columns valueType =>
    obtain ⟨u, -, h⟩ := bind_eq_ok.1 h
    obtain ⟨c, -, h⟩ := bind_eq_ok.1 h
    cases h
    simp only [List.append_assoc]
    exact ⟨_, by decide, List.prefix_append _ _⟩
  | backfill table columns source condition =>
    obtain ⟨u, -, h⟩ := bind_eq_ok.1 h
    obtain ⟨v, -, h⟩ := bind_eq_ok.1 h
    obtain ⟨c, -, h⟩ := bind_eq_ok.1 h
    cases condition with
    | none =>
      cases h
      simp only [List.append_assoc]
      exact ⟨_, by decide, List.prefix_append _ _⟩
    | some condition =>
      obtain ⟨w, -, h⟩ := bind_eq_ok.1 h
      cases h
      simp only [List.append_assoc]
      exact ⟨_, by decide, List.prefix_append _ _⟩
  | createTrigger name event source body =>
    obtain ⟨lss, -, h⟩ := bind_eq_ok.1 h
    obtain ⟨u, -, h⟩ := bind_eq_ok.1 h
    obtain ⟨v, -, h⟩ := bind_eq_ok.1 h
    cases h
    simp only [List.append_assoc]
    exact ⟨_, by decide, List.prefix_append _ _⟩

/-- No statement starts as a line that is for the client. -/
theorem directive?_lead {lead : Text} (h : lead ∈ leads) (d : Delimiter) (rest : Text) :
    Script.directive? d (lead ++ rest) = none := by
  simp only [leads, List.map_cons, List.map_nil, List.mem_cons, List.not_mem_nil, or_false] at h
  rcases h with rfl | rfl | rfl | rfl | rfl
  · exact directive?_drop
  · exact directive?_drop
  · exact directive?_of_head (c := 'C') (by decide) (by decide)
  · exact directive?_of_head (c := 'I') (by decide) (by decide)
  · exact directive?_of_head (c := 'C') (by decide) (by decide)

theorem endsSolid_text (h : s.text = .ok t) : t.EndsSolid := by
  cases s with
  | dropTrigger name =>
    obtain ⟨u, hu, h⟩ := bind_eq_ok.1 h
    cases h
    exact (endsSolid_quote hu).behind _
  | dropTable table =>
    obtain ⟨u, hu, h⟩ := bind_eq_ok.1 h
    cases h
    exact (endsSolid_quote hu).behind _
  | createTable table columns valueType =>
    obtain ⟨u, -, h⟩ := bind_eq_ok.1 h
    obtain ⟨c, -, h⟩ := bind_eq_ok.1 h
    cases h
    exact (Text.endsSolid_append (c := ')') (by decide) ['\n']).behind _
  | backfill table columns source condition =>
    obtain ⟨u, -, h⟩ := bind_eq_ok.1 h
    obtain ⟨v, hv, h⟩ := bind_eq_ok.1 h
    obtain ⟨c, -, h⟩ := bind_eq_ok.1 h
    cases condition with
    | none =>
      cases h
      exact (endsSolid_quote hv).behind _
    | some condition =>
      obtain ⟨w, hw, h⟩ := bind_eq_ok.1 h
      cases h
      exact (condition.endsSolid_text hw).behind _
  | createTrigger name event source body =>
    obtain ⟨lss, -, h⟩ := bind_eq_ok.1 h
    obtain ⟨u, -, h⟩ := bind_eq_ok.1 h
    obtain ⟨v, -, h⟩ := bind_eq_ok.1 h
    cases h
    exact (Text.endsSolid_append (c := 'D') (by decide) "\nEN".toList).behind _

theorem Writable.erase_text_eq (h : s.Writable) : s.erase.text = .ok s.erase.written := by
  obtain ⟨-, t', -, ht', -⟩ := s.both_text h
  rw [ht', written_of_text ht']

/-- A statement is read off a script as it stands. -/
theorem Writable.isStatement (h : s.Writable)
    (htype : ∀ table columns valueType, s = .createTable table columns valueType →
      valueType.Inline) : IsStatement s.mark s.written := by
  obtain ⟨lead, hlead, x, hx⟩ := exists_lead h.text_eq
  have hhead : leads.all (fun lead => lead.head?.any fun c => !Text.isBlank c) = true := by decide
  obtain ⟨c, hc, hsolid⟩ := (Option.any_eq_true _ _).1 (List.all_eq_true.1 hhead lead hlead)
  rw [Bool.not_eq_true'] at hsolid
  obtain ⟨r, rfl⟩ := List.head?_eq_some_iff.1 hc
  refine ⟨⟨_, _, h.quoting, silent_text h.erase_text_eq htype⟩, ?_, ?_, ?_,
    (endsSolid_text h.text_eq).last⟩
  · intro d rest
    rw [← hx, List.append_assoc]
    exact directive?_lead hlead d _
  · rw [← hx]
    exact List.cons_ne_nil _ _
  · rw [← hx]
    rintro _ ⟨⟩
    exact hsolid

end Statement

end Sql

end TypedMirror
