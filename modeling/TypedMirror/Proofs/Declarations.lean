import TypedMirror.Proofs.Naming.Duplicates
import TypedMirror.Settings.Basic

/-!
# Declared mirrors

Settings declare their mirrors as texts.  What a declaration means is found in the catalog and in
the list of types, without any registration; the declarations are registered if each of them means
something sound and no two mean the same mirror table, and otherwise the first that does not is
reported, with the first step that it fails at.

* `Declaration.Means` — the type, the arguments and the table that a declaration names;
* `Declaration.Fails` — the step that a declaration fails at, when some ids are taken;
* `Setup.Holds.declare`, `Setup.Holds.declare_fails` — one declaration, sound or not;
* `Settings.setup_outcome` — all declarations of some settings.
-/

namespace TypedMirror

/-! ## Lists that hold up to a place -/

section FirstFailure

variable {ε α β : Type}

/-- Either all of a list is good, or some of its elements is the first that is not. -/
theorem forall_or_first (P : α → Bool) (xs : List α) : (∀ x ∈ xs, P x) ∨
    ∃ before x after, xs = before ++ x :: after ∧ (∀ y ∈ before, P y) ∧ P x = false := by
  cases h : xs.find? fun x => !P x with
  | none => exact .inl fun x hx => by simpa using List.find?_eq_none.1 h x hx
  | some x =>
    obtain ⟨hx, before, after, rfl, hbefore⟩ := List.find?_eq_some_iff_append.1 h
    exact .inr ⟨before, x, after, rfl, by simpa using hbefore, by simpa using hx⟩

/-- A run of steps stops at the first that fails. -/
theorem foldlM_eq_error {f : α → β → Except ε α} {xs : List β} {a : α} {e : ε} :
    xs.foldlM f a = .error e ↔ ∃ before x after a', xs = before ++ x :: after ∧
      before.foldlM f a = .ok a' ∧ f a' x = .error e := by
  constructor
  · induction xs generalizing a with
    | nil => nofun
    | cons x xs ih =>
      intro h
      rw [List.foldlM_cons] at h
      cases hx : f a x with
      | error e' =>
        rw [hx] at h
        exact ⟨[], x, xs, a, rfl, rfl, hx.trans h⟩
      | ok a₁ =>
        rw [hx] at h
        obtain ⟨before, y, after, a', rfl, hbefore, hy⟩ := ih h
        refine ⟨x :: before, y, after, a', rfl, ?_, hy⟩
        rw [List.foldlM_cons, hx]
        exact hbefore
  · rintro ⟨before, x, after, a', rfl, hbefore, hx⟩
    rw [List.foldlM_append, hbefore]
    change (x :: after).foldlM f a' = .error e
    rw [List.foldlM_cons, hx]
    rfl

end FirstFailure

namespace Identifier

variable {names before after : List Text} {n : Text}

theorem forM_validate (h : ∀ n ∈ names, isValid n) : forM names validate = .ok () := by
  induction names with
  | nil => rfl
  | cons n names ih =>
    obtain ⟨hn, hnames⟩ := List.forall_mem_cons.1 h
    rw [List.forM_cons, validate, if_pos hn]
    exact ih hnames

theorem forM_validate_first (hbefore : ∀ x ∈ before, isValid x) (hn : isValid n = false) :
    forM (before ++ n :: after) validate = .error (.invalidIdentifier n) := by
  rw [List.forM_append, forM_validate hbefore, List.forM_cons, validate, hn]
  rfl

end Identifier

/-! ## What a declaration means -/

namespace Catalog

variable {c : Catalog} {name : Text} {table : MetaTable}

/-- The first table of a catalog with this full name. -/
def First (c : Catalog) (name : Text) (table : MetaTable) : Prop :=
  ∃ before after, c.tables = before ++ table :: after ∧ c.fullName table = name ∧
    ∀ x ∈ before, c.fullName x ≠ name

theorem get?_eq_find? (c : Catalog) (name : Text) :
    c.get? name = c.tables.find? fun t => c.fullName t == name := by
  unfold get?
  cases h : Text.after? c.lead name with
  | none =>
    have hne : ∀ t ∈ c.tables, ¬ (c.fullName t == name) = true := by
      intro t _ ht
      have hlead := Text.after?_eq_some.2 (eq_of_beq ht).symm
      rw [h] at hlead
      cases hlead
    exact (List.find?_eq_none.2 hne).symm
  | some base =>
    obtain rfl := Text.after?_eq_some.1 h
    simp [fullName, beq_eq_decide]

theorem get?_eq_some_iff : c.get? name = some table ↔ c.First name table := by
  rw [get?_eq_find?, List.find?_eq_some_iff_append, First]
  simp only [beq_iff_eq, Bool.not_eq_true', beq_eq_false_iff_ne]
  constructor
  · rintro ⟨hname, before, after, htables, hbefore⟩
    exact ⟨before, after, htables, hname, hbefore⟩
  · rintro ⟨before, after, htables, hname, hbefore⟩
    exact ⟨hname, before, after, htables, hbefore⟩

theorem get?_eq_none_iff : c.get? name = none ↔ ∀ t ∈ c.tables, c.fullName t ≠ name := by
  rw [get?_eq_find?, List.find?_eq_none]
  simp only [beq_iff_eq, ne_eq]

end Catalog

namespace Declaration

/-- A type, its arguments and a table. -/
structure Meaning where
  valueType : ValueType
  args : List Nat
  table : MetaTable
deriving DecidableEq, Repr

/-- The type, the arguments and the table that a declaration names. -/
structure Means (c : Catalog) (d : Declaration) (r : Meaning) : Prop where
  type : Text.sameIgnoringCase (Text.trim d.type) r.valueType.keyword
  args : ValueType.ReadAs (d.args.map TypeArg.written) r.args
  table : c.First d.table r.table

/-- The mirror of a declaration with a meaning. -/
def mirror (d : Declaration) (r : Meaning) : Mirror where
  id := Mirror.nameFor d.table r.valueType r.args
  source := d.table
  idColumn := r.table.idColumn
  objectColumn := r.table.objectColumn
  keyColumn := r.table.keyColumn
  valueColumn := r.table.valueColumn
  valueType := r.valueType
  typeArgs := r.args
  whitelist := d.keys

/-- The names that come to stand in statements, in the order in which they are checked. -/
def names (d : Declaration) (r : Meaning) : List Text :=
  d.table :: (d.mirror r).columns ++ [(d.mirror r).id]

/-- A declaration has this meaning, and its names and keys are good. -/
structure Sound (c : Catalog) (d : Declaration) (r : Meaning) : Prop where
  means : d.Means c r
  names : ∀ n ∈ d.names r, Identifier.isValid n
  keys : ∀ k ∈ d.keys, ¬ Text.isAllBlank k

/-- The mirror of a sound declaration. -/
def Makes (c : Catalog) (d : Declaration) (m : Mirror) : Prop := ∃ r, d.Sound c r ∧ m = d.mirror r

/-- The mirror table of a declaration, whether or not its names and keys are good. -/
def Derives (c : Catalog) (d : Declaration) (name : Text) : Prop :=
  ∃ r, d.Means c r ∧ name = (d.mirror r).id

/-- The first step that a declaration fails at, when these ids are taken. -/
inductive Fails (c : Catalog) (taken : List Text) (d : Declaration) : MirrorError → Prop
  | type (h : ∀ t : ValueType, ¬ Text.sameIgnoringCase (Text.trim d.type) t.keyword) :
    Fails c taken d (.unsupportedType d.type)
  | table {t : ValueType} (ht : Text.sameIgnoringCase (Text.trim d.type) t.keyword)
    (h : ∀ table ∈ c.tables, c.fullName table ≠ d.table) :
    Fails c taken d (.unsupportedTable d.table)
  | name {r : Meaning} {before after : List Text} {n : Text} (hr : d.Means c r)
    (hnames : d.names r = before ++ n :: after) (hbefore : ∀ x ∈ before, Identifier.isValid x)
    (h : Identifier.isValid n = false) : Fails c taken d (.invalidIdentifier n)
  | duplicate {r : Meaning} (hr : d.Means c r) (hnames : ∀ n ∈ d.names r, Identifier.isValid n)
    (h : (d.mirror r).id ∈ taken) : Fails c taken d (.duplicateMirror (d.mirror r).id)
  | key {r : Meaning} {before after : List Text} {k : Text} (hr : d.Means c r)
    (hnames : ∀ n ∈ d.names r, Identifier.isValid n) (hnew : (d.mirror r).id ∉ taken)
    (hkeys : d.keys = before ++ k :: after) (hbefore : ∀ x ∈ before, ¬ Text.isAllBlank x)
    (h : Text.isAllBlank k) : Fails c taken d (.emptyKeyPattern (d.mirror r).id)

variable {c : Catalog} {d : Declaration} {r r' : Meaning} {taken : List Text}

theorem Means.unique (h : d.Means c r) (h' : d.Means c r') : r = r' := by
  have htype := (ValueType.read_eq_ok_iff.2 h.type).symm.trans (ValueType.read_eq_ok_iff.2 h'.type)
  have hargs := (ValueType.readAs_iff.1 h.args).symm.trans (ValueType.readAs_iff.1 h'.args)
  have htable := (Catalog.get?_eq_some_iff.2 h.table).symm.trans
    (Catalog.get?_eq_some_iff.2 h'.table)
  cases r
  cases r'
  cases Except.ok.inj htype
  cases Option.some.inj htable
  cases hargs
  rfl

/-- Every declaration is sound and new, or fails at some step. -/
theorem sound_or_fails (c : Catalog) (taken : List Text) (d : Declaration) :
    (∃ r, d.Sound c r ∧ (d.mirror r).id ∉ taken) ∨ ∃ e, d.Fails c taken e := by
  by_cases htype : ∃ t : ValueType, Text.sameIgnoringCase (Text.trim d.type) t.keyword
  swap
  · exact .inr ⟨_, .type (not_exists.1 htype)⟩
  obtain ⟨t, ht⟩ := htype
  cases htable : c.get? d.table with
  | none => exact .inr ⟨_, .table ht (Catalog.get?_eq_none_iff.1 htable)⟩
  | some table =>
    let r : Meaning := ⟨t, ValueType.readArgs (d.args.map TypeArg.written), table⟩
    have hr : d.Means c r := ⟨ht, ValueType.readAs_readArgs _, Catalog.get?_eq_some_iff.1 htable⟩
    rcases forall_or_first Identifier.isValid (d.names r) with
      hnames | ⟨before, n, after, hnames, hbefore, hn⟩
    swap
    · exact .inr ⟨_, .name hr hnames hbefore hn⟩
    by_cases hnew : (d.mirror r).id ∈ taken
    · exact .inr ⟨_, .duplicate hr hnames hnew⟩
    · rcases forall_or_first (fun k => !Text.isAllBlank k) d.keys with
        hkeys | ⟨before, k, after, hkeys, hbefore, hk⟩
      · exact .inl ⟨r, ⟨hr, hnames, by simpa using hkeys⟩, hnew⟩
      · exact .inr ⟨_, .key hr hnames hnew hkeys (by simpa using hbefore) (by simpa using hk)⟩

end Declaration

/-! ## One declaration -/

theorem ValueType.read_eq_error {written : Text}
    (h : ∀ t : ValueType, ¬ Text.sameIgnoringCase (Text.trim written) t.keyword) :
    read written = .error (.unsupportedType written) := by
  cases hread : read written with
  | ok t => exact absurd (read_eq_ok_iff.1 hread) (h t)
  | error e =>
    unfold read at hread
    split at hread
    · cases hread
    · exact hread.symm

namespace Mirror

variable {c : Catalog} {d : Declaration} {r : Declaration.Meaning}

/-- With a meaning, only the names can be bad. -/
theorem read_means (h : d.Means c r) : read c d.table d.type (d.args.map TypeArg.written) =
    (forM (d.names r) Identifier.validate).map fun _ => { d.mirror r with whitelist := [] } := by
  have htable := Catalog.get?_eq_some_iff.2 h.table
  have hnames : d.names r = [d.table, r.table.idColumn, r.table.objectColumn, r.table.keyColumn,
      r.table.valueColumn] ++ [nameFor d.table r.valueType r.args] := rfl
  rw [read, ValueType.read_eq_ok_iff.2 h.type, ValueType.readAs_iff.1 h.args, hnames,
    List.forM_append]
  change define c d.table r.valueType r.args = _
  simp only [define, htable, Catalog.fullName_of_get? htable, List.forM_eq_forM]
  cases forM [d.table, r.table.idColumn, r.table.objectColumn, r.table.keyColumn,
      r.table.valueColumn] Identifier.validate with
  | error e => rfl
  | ok u =>
    change _ = Except.map _ (forM [nameFor d.table r.valueType r.args] Identifier.validate)
    rw [List.forM_cons, List.forM_nil]
    cases Identifier.validate (nameFor d.table r.valueType r.args) with
    | error e => rfl
    | ok u => rfl

end Mirror

namespace Setup

variable {c : Catalog} {s : Setup} {ms : List Mirror} {m : Mirror} {d : Declaration}
  {r : Declaration.Meaning} {k : Text} {keys before after : List Text} {e : MirrorError}

/-- A setup of a catalog in which these mirrors are registered, while the window is open. -/
structure Holds (s : Setup) (c : Catalog) (ms : List Mirror) : Prop where
  catalog : s.catalog = c
  isOpen : s.window = .isOpen
  mirrors : s.mirrors = ms
  agrees : s.index.Agrees ms

theorem holds_start (c : Catalog) : (start c).Holds c [] := ⟨rfl, rfl, rfl, .nil⟩

namespace Holds

theorem ensureOpen (hs : s.Holds c ms) (step : SetupStep) : s.ensureOpen step = .ok () :=
  if_pos hs.isOpen

theorem add (hs : s.Holds c ms) (hnew : m.id ∉ ms.map (·.id)) :
    ∃ s', s.add m = .ok s' ∧ s'.Holds c (ms ++ [m]) := by
  have hlookup := hs.agrees.lookup_eq_none.2 hnew
  obtain rfl := hs.mirrors
  refine ⟨_, by rw [Setup.add, hs.ensureOpen, hlookup]; rfl, ?_⟩
  exact ⟨hs.catalog, hs.isOpen, rfl, hs.agrees.append hlookup⟩

theorem add_taken (hs : s.Holds c ms) (h : m.id ∈ ms.map (·.id)) :
    s.add m = .error (.duplicateMirror m.id) := by
  rw [Setup.add, hs.ensureOpen]
  cases hlookup : s.index.lookup m.id with
  | none => exact absurd h (hs.agrees.lookup_eq_none.1 hlookup)
  | some i => rfl

/-- A key is added to the mirror that has been registered last. -/
theorem addKey_last (hs : s.Holds c (ms ++ [m])) (k : Text) : s.addKey m.id k =
    (m.addKey k).map fun m' => { s with mirrors := ms ++ [m'] } := by
  have hentry : s.entry? m.id = some (ms.length, m) := by
    rw [Setup.entry?, hs.mirrors]
    exact hs.agrees.entry?_iff.2 ⟨List.getElem?_concat_length, rfl⟩
  rw [Setup.addKey, hs.ensureOpen, hentry, hs.mirrors]
  change (m.addKey k >>= fun m' => .ok { s with mirrors := (ms ++ [m]).set ms.length m' }) = _
  simp only [List.set_append_right _ _ (Nat.le_refl _), Nat.sub_self]
  cases m.addKey k with
  | error e => rfl
  | ok m' => rfl

/-- A good key becomes the last one of the mirror. -/
theorem addKey (hs : s.Holds c (ms ++ [m])) (hk : ¬ Text.isAllBlank k) :
    ∃ s', s.addKey m.id k = .ok s' ∧
      s'.Holds c (ms ++ [{ m with whitelist := m.whitelist ++ [k] }]) := by
  have hadd : m.addKey k = .ok { m with whitelist := m.whitelist ++ [k] } := by
    rw [Mirror.addKey, if_neg (by rwa [List.isEmpty_iff, Text.trim_eq_nil])]
  rw [hs.addKey_last, hadd]
  refine ⟨_, rfl, hs.catalog, hs.isOpen, rfl, ?_⟩
  have hset : s.index.Agrees
      ((ms ++ [m]).set ms.length { m with whitelist := m.whitelist ++ [k] }) :=
    hs.agrees.set List.getElem?_concat_length rfl
  rwa [List.set_append_right _ _ (Nat.le_refl _), Nat.sub_self] at hset

theorem addKey_blank (hs : s.Holds c (ms ++ [m])) (hk : Text.isAllBlank k) :
    s.addKey m.id k = .error (.emptyKeyPattern m.id) := by
  rw [hs.addKey_last, Mirror.addKey, if_pos (by rwa [List.isEmpty_iff, Text.trim_eq_nil])]
  rfl

theorem addKeys (hs : s.Holds c (ms ++ [m])) (hkeys : ∀ k ∈ keys, ¬ Text.isAllBlank k) :
    ∃ s', keys.foldlM (fun s k => s.addKey m.id k) s = .ok s' ∧
      s'.Holds c (ms ++ [{ m with whitelist := m.whitelist ++ keys }]) := by
  induction keys generalizing s m with
  | nil => exact ⟨s, rfl, by simpa using hs⟩
  | cons k keys ih =>
    obtain ⟨hk, hkeys⟩ := List.forall_mem_cons.1 hkeys
    obtain ⟨s₁, hadd, hs₁⟩ := hs.addKey hk
    obtain ⟨s₂, hrest, hs₂⟩ := ih hs₁ hkeys
    refine ⟨s₂, ?_, by simpa using hs₂⟩
    rw [List.foldlM_cons, hadd]
    exact hrest

/-- The first steps of a declaration whose names are good. -/
theorem register (hs : s.Holds c ms) (hr : d.Means c r)
    (hnames : ∀ n ∈ d.names r, Identifier.isValid n) :
    s.register d.table d.type (d.args.map TypeArg.written) =
      (s.add { d.mirror r with whitelist := [] }).map fun s' => (s', (d.mirror r).id) := by
  rw [Setup.register, hs.ensureOpen, hs.catalog, Mirror.read_means hr,
    Identifier.forM_validate hnames]
  change (s.add { d.mirror r with whitelist := [] } >>= fun s' => .ok (s', (d.mirror r).id)) = _
  cases s.add { d.mirror r with whitelist := [] } with
  | error e => rfl
  | ok s' => rfl

/-- A declaration with a new id and good names comes to its keys. -/
theorem declare_eq (hs : s.Holds c ms) (hr : d.Means c r)
    (hnames : ∀ n ∈ d.names r, Identifier.isValid n) (hnew : (d.mirror r).id ∉ ms.map (·.id)) :
    ∃ s', s'.Holds c (ms ++ [{ d.mirror r with whitelist := [] }]) ∧
      s.declare d = d.keys.foldlM (fun s k => s.addKey (d.mirror r).id k) s' := by
  obtain ⟨s', hadd, hs'⟩ := hs.add (m := { d.mirror r with whitelist := [] }) hnew
  refine ⟨s', hs', ?_⟩
  rw [Setup.declare, hs.register hr hnames, hadd]
  rfl

/-- A sound declaration is registered behind the mirrors before it. -/
theorem declare (hs : s.Holds c ms) (hr : d.Sound c r) (hnew : (d.mirror r).id ∉ ms.map (·.id)) :
    ∃ s', s.declare d = .ok s' ∧ s'.Holds c (ms ++ [d.mirror r]) := by
  obtain ⟨s₁, hs₁, hdeclare⟩ := hs.declare_eq hr.means hr.names hnew
  obtain ⟨s₂, hkeys, hs₂⟩ := hs₁.addKeys hr.keys
  exact ⟨s₂, hdeclare.trans hkeys, hs₂⟩

/-- A declaration that fails at a step is refused with the error of that step. -/
theorem declare_fails (hs : s.Holds c ms) (h : d.Fails c (ms.map (·.id)) e) :
    s.declare d = .error e := by
  cases h with
  | type htype =>
    rw [Setup.declare, Setup.register, hs.ensureOpen, Mirror.read, ValueType.read_eq_error htype]
    rfl
  | table ht htable =>
    rw [Setup.declare, Setup.register, hs.ensureOpen, Mirror.read, ValueType.read_eq_ok_iff.2 ht,
      hs.catalog]
    change (Mirror.define c d.table _ _ >>= _) >>= _ = _
    rw [Mirror.define, Catalog.get?_eq_none_iff.2 htable]
    rfl
  | name hr hnames hbefore hn =>
    rw [Setup.declare, Setup.register, hs.ensureOpen, hs.catalog, Mirror.read_means hr, hnames,
      Identifier.forM_validate_first hbefore hn]
    rfl
  | duplicate hr hnames htaken =>
    have hadd := hs.add_taken (m := { d.mirror _ with whitelist := [] }) htaken
    rw [Setup.declare, hs.register hr hnames, hadd]
    rfl
  | key hr hnames hnew hkeys hbefore hk =>
    obtain ⟨s₁, hs₁, hdeclare⟩ := hs.declare_eq hr hnames hnew
    obtain ⟨s₂, hadded, hs₂⟩ := hs₁.addKeys hbefore
    rw [hdeclare, hkeys, foldlM_eq_error]
    exact ⟨_, _, _, s₂, rfl, hadded, hs₂.addKey_blank hk⟩

end Holds

end Setup

/-! ## All declarations -/

namespace Declaration

variable {c : Catalog} {d : Declaration} {m : Mirror} {ds : List Declaration} {ms : List Mirror}

theorem Makes.derives_iff (h : d.Makes c m) {name : Text} : d.Derives c name ↔ name = m.id := by
  obtain ⟨r, hr, rfl⟩ := h
  constructor
  · rintro ⟨r', hr', rfl⟩
    rw [hr.means.unique hr']
  · rintro rfl
    exact ⟨r, hr.means, rfl⟩

/-- No two declarations are of one mirror table exactly if their mirrors have different ids. -/
theorem pairwise_iff (h : List.Forall₂ (Makes c) ds ms) :
    (ds.Pairwise fun d d' => ∀ name, d.Derives c name → ¬ d'.Derives c name) ↔
      (ms.map (·.id)).Nodup := by
  induction h with
  | nil => simp
  | @cons d m ds ms hd hds ih =>
    have hhead : (∀ d' ∈ ds, ∀ name, d.Derives c name → ¬ d'.Derives c name) ↔
        m.id ∉ ms.map (·.id) := by
      clear ih
      simp only [hd.derives_iff, forall_eq]
      induction hds with
      | nil => simp
      | cons hd' _ ih => rw [List.forall_mem_cons, ih, hd'.derives_iff]; simp
    rw [List.pairwise_cons, List.map_cons, List.nodup_cons, ih, hhead]

theorem exists_makes (h : ∀ d ∈ ds, ∃ r, d.Sound c r) : ∃ ms, List.Forall₂ (Makes c) ds ms := by
  induction ds with
  | nil => exact ⟨[], .nil⟩
  | cons d ds ih =>
    obtain ⟨⟨r, hr⟩, hds⟩ := List.forall_mem_cons.1 h
    obtain ⟨ms, hms⟩ := ih hds
    exact ⟨d.mirror r :: ms, .cons ⟨r, hr, rfl⟩ hms⟩

theorem sound_of_makes (h : List.Forall₂ (Makes c) ds ms) : ∀ d ∈ ds, ∃ r, d.Sound c r := by
  induction h with
  | nil => nofun
  | cons hd _ ih =>
    obtain ⟨r, hr, -⟩ := hd
    exact List.forall_mem_cons.2 ⟨⟨r, hr⟩, ih⟩

end Declaration

namespace Setup.Holds

variable {c : Catalog} {s s' : Setup} {ds : List Declaration} {ms made : List Mirror}

/-- Declarations that make mirrors of different ids are registered, one after the other. -/
theorem declareAll (hs : s.Holds c ms) (h : List.Forall₂ (Declaration.Makes c) ds made)
    (hids : ((ms ++ made).map (·.id)).Nodup) :
    ∃ s', ds.foldlM Setup.declare s = .ok s' ∧ s'.Holds c (ms ++ made) := by
  induction h generalizing s ms with
  | nil => exact ⟨s, rfl, by rwa [List.append_nil]⟩
  | @cons d m ds made hd hds ih =>
    obtain ⟨r, hr, rfl⟩ := hd
    have hnew : (d.mirror r).id ∉ ms.map (·.id) := by
      rw [List.map_append, List.map_cons] at hids
      exact fun hmem => (List.nodup_append.1 hids).2.2 _ hmem _ List.mem_cons_self rfl
    obtain ⟨s₁, hdeclare, hs₁⟩ := hs.declare hr hnew
    obtain ⟨s₂, hrest, hs₂⟩ := ih hs₁ (by simpa using hids)
    refine ⟨s₂, ?_, by simpa using hs₂⟩
    rw [List.foldlM_cons, hdeclare]
    exact hrest

/-- And whatever is registered is made by such declarations. -/
theorem of_declareAll (hs : s.Holds c ms) (h : ds.foldlM Setup.declare s = .ok s') :
    ∃ made, List.Forall₂ (Declaration.Makes c) ds made ∧ s'.Holds c (ms ++ made) := by
  induction ds generalizing s ms with
  | nil =>
    cases h
    exact ⟨[], .nil, by rwa [List.append_nil]⟩
  | cons d ds ih =>
    rw [List.foldlM_cons] at h
    rcases d.sound_or_fails c (ms.map (·.id)) with ⟨r, hr, hnew⟩ | ⟨e, he⟩
    · obtain ⟨s₁, hdeclare, hs₁⟩ := hs.declare hr hnew
      rw [hdeclare] at h
      obtain ⟨made, hmade, hs'⟩ := ih hs₁ h
      exact ⟨d.mirror r :: made, .cons ⟨r, hr, rfl⟩ hmade, by simpa using hs'⟩
    · rw [hs.declare_fails he] at h
      cases h

theorem lookup (hs : s.Holds c ms) {m : Mirror} (hm : m ∈ ms) :
    s.finalize.lookup m.id = some m := by
  obtain ⟨i, hi⟩ := List.getElem?_of_mem hm
  obtain rfl := hs.mirrors
  change (s.index.entry? s.mirrors m.id).map (·.2) = some m
  rw [hs.agrees.entry?_iff.2 ⟨hi, rfl⟩]
  rfl

end Setup.Holds

/-! ## Numbers given as texts -/

theorem Text.trim_eq_self {t : Text} (h : ∀ c ∈ t, isBlank c = false) : trim t = t := by
  have hdrop : ∀ t : Text, (∀ c ∈ t, isBlank c = false) → t.dropWhile isBlank = t := by
    intro t h
    cases t with
    | nil => rfl
    | cons c r => rw [List.dropWhile_cons, h c List.mem_cons_self]; rfl
  rw [trim, hdrop t h, hdrop _ fun c hc => h c (List.mem_reverse.1 hc), List.reverse_reverse]

namespace Numeral

variable {n : Int} {t : Text} {k : Nat}

/-- A text spells an integer: its numeral, behind any zeros and a sign, with blanks around. -/
def Spelled (n : Int) (t : Text) : Prop :=
  ∃ sign k, Text.trim t = sign ++ (List.replicate k '0' ++ write n.natAbs) ∧
    if n < 0 then sign = ['-'] else sign = [] ∨ sign = ['+']

/-- The arguments that are numbers do not tell how they are spelled. -/
theorem Spelled.spells_iff (h : Spelled n t) :
    ValueType.Spells t k ↔ (k : Int) = n ∧ k ≤ ValueType.maxArg := by
  obtain ⟨sign, zeros, ht, hsign⟩ := h
  rw [← ValueType.readUpTo_eq_some, readUpTo, Option.filter_eq_some_iff, decide_eq_true_eq]
  refine and_congr_left fun _ => ?_
  split at hsign
  · -- No numeral that is read has a minus.
    subst hsign
    have hnone : read (Text.trim t) = none := by
      rw [ht]
      rfl
    rw [hnone]
    constructor
    · intro hk
      cases hk
    · omega
  · rw [read_eq_some.2 ⟨sign, zeros, ht, hsign⟩, Option.some.injEq]
    omega

theorem isBlank_of_mem_writeInt {c : Char} (h : c ∈ writeInt n) : Text.isBlank c = false := by
  have hwritten : c = '-' ∨ c ∈ write n.natAbs := by
    unfold writeInt at h
    split at h
    · exact List.mem_cons.1 h
    · exact .inr h
  rcases hwritten with rfl | hc
  · rfl
  · obtain ⟨hlow, hhigh⟩ := Char.isDigit_iff_toNat.1 (isDigit_of_mem_write hc)
    have h0 : '0'.toNat = 48 := rfl
    have h9 : '9'.toNat = 57 := rfl
    rw [Text.isBlank]
    simp
    omega

theorem spelled_writeInt (n : Int) : Spelled n (writeInt n) := by
  have htrim : Text.trim (writeInt n) = writeInt n :=
    Text.trim_eq_self fun c hc => isBlank_of_mem_writeInt hc
  rw [Spelled, htrim, writeInt]
  split
  · exact ⟨['-'], 0, rfl, rfl⟩
  · exact ⟨[], 0, rfl, .inl rfl⟩

end Numeral

/-- The same argument, as a number or as a text. -/
inductive TypeArg.Respelled : TypeArg → TypeArg → Prop
  | same (a : TypeArg) : Respelled a a
  | spelled {n : Int} {t : Text} (h : Numeral.Spelled n t) : Respelled (.int n) (.text t)

/-- The same declaration but for the spelling of its arguments. -/
structure Declaration.Respelled (d d' : Declaration) : Prop where
  table : d'.table = d.table
  type : d'.type = d.type
  args : List.Forall₂ TypeArg.Respelled d.args d'.args
  keys : d'.keys = d.keys

section Respelled

variable {a a' : TypeArg} {args args' : List TypeArg} {d d' : Declaration}
  {ds ds' : List Declaration} {s : Setup}

theorem TypeArg.Respelled.readUpTo_eq (h : a.Respelled a') :
    Numeral.readUpTo ValueType.maxArg (Text.trim a'.written) =
      Numeral.readUpTo ValueType.maxArg (Text.trim a.written) := by
  cases h with
  | same => rfl
  | @spelled n t h =>
    ext k
    rw [ValueType.readUpTo_eq_some, ValueType.readUpTo_eq_some]
    exact h.spells_iff.trans (Numeral.spelled_writeInt n).spells_iff.symm

theorem ValueType.readArgs_respelled (h : List.Forall₂ TypeArg.Respelled args args') :
    readArgs (args'.map TypeArg.written) = readArgs (args.map TypeArg.written) := by
  induction h with
  | nil => rfl
  | cons ha _ ih =>
    rw [readArgs, readArgs] at ih ⊢
    rw [List.map_cons, List.map_cons, List.filterMap_cons, List.filterMap_cons, ha.readUpTo_eq, ih]

theorem Setup.declare_respelled (h : d.Respelled d') : s.declare d' = s.declare d := by
  rw [declare, declare, register, register, Mirror.read, Mirror.read, h.table, h.type, h.keys,
    ValueType.readArgs_respelled h.args]

theorem Setup.declareAll_respelled (h : List.Forall₂ Declaration.Respelled ds ds') :
    ds'.foldlM declare s = ds.foldlM declare s := by
  induction h generalizing s with
  | nil => rfl
  | cons hd _ ih =>
    rw [List.foldlM_cons, List.foldlM_cons, declare_respelled hd]
    exact bind_congr fun s' => ih

end Respelled

/-! ## Settings -/

/-- The mirrors of some settings are registered exactly if every declaration is sound and no two are
of one mirror table.  There is then one mirror for each declaration, in their order; otherwise the
error is that of the first declaration that fails, at the first step that it fails at.  How a number
among the arguments is spelled makes no difference. -/
theorem Settings.setup_outcome (s : Settings) :
    ((∃ b, s.setup = .ok b) ↔ (∀ d ∈ s.mirrors, ∃ r, d.Sound s.catalog r) ∧
      s.mirrors.Pairwise fun d d' =>
        ∀ name, d.Derives s.catalog name → ¬ d'.Derives s.catalog name) ∧
    (∀ b, s.setup = .ok b → b.finalize.catalog = s.catalog ∧
      List.Forall₂ (Declaration.Makes s.catalog) s.mirrors b.finalize.mirrors ∧
      ∀ m ∈ b.finalize.mirrors, b.finalize.lookup m.id = some m) ∧
    (∀ e, s.setup = .error e ↔ ∃ before d after made, s.mirrors = before ++ d :: after ∧
      List.Forall₂ (Declaration.Makes s.catalog) before made ∧ (made.map (·.id)).Nodup ∧
      d.Fails s.catalog (made.map (·.id)) e) ∧
    ∀ ds, List.Forall₂ Declaration.Respelled s.mirrors ds →
      { s with mirrors := ds }.setup = s.setup := by
  have hstart := Setup.holds_start s.catalog
  refine ⟨⟨?_, ?_⟩, ?_, fun e => ⟨?_, ?_⟩, ?_⟩
  · rintro ⟨b, hb⟩
    obtain ⟨made, hmade, hholds⟩ := hstart.of_declareAll hb
    exact ⟨Declaration.sound_of_makes hmade,
      (Declaration.pairwise_iff hmade).2 hholds.agrees.nodup_ids⟩
  · rintro ⟨hsound, hpairwise⟩
    obtain ⟨made, hmade⟩ := Declaration.exists_makes hsound
    obtain ⟨b, hb, -⟩ := hstart.declareAll hmade ((Declaration.pairwise_iff hmade).1 hpairwise)
    exact ⟨b, hb⟩
  · intro b hb
    obtain ⟨made, hmade, hholds⟩ := hstart.of_declareAll hb
    have hmirrors : b.finalize.mirrors = made := hholds.mirrors
    rw [hmirrors]
    exact ⟨hholds.catalog, hmade, fun m hm => hholds.lookup hm⟩
  · intro h
    obtain ⟨before, d, after, b, hds, hbefore, hd⟩ := foldlM_eq_error.1 h
    obtain ⟨made, hmade, hholds⟩ := hstart.of_declareAll hbefore
    refine ⟨before, d, after, made, hds, hmade, hholds.agrees.nodup_ids, ?_⟩
    rcases d.sound_or_fails s.catalog (made.map (·.id)) with ⟨r, hr, hnew⟩ | ⟨e', he'⟩
    · obtain ⟨b', hb', -⟩ := hholds.declare hr hnew
      rw [hb'] at hd
      cases hd
    · rw [hholds.declare_fails he'] at hd
      cases hd
      exact he'
  · rintro ⟨before, d, after, made, hds, hmade, hids, hd⟩
    obtain ⟨b, hb, hholds⟩ := hstart.declareAll hmade hids
    exact foldlM_eq_error.2 ⟨before, d, after, b, hds, hb, hholds.declare_fails hd⟩
  · intro ds hds
    exact Setup.declareAll_respelled hds

namespace Sample

/-- A declaration of the mirror of colours, with the length given in some way. -/
def declaration (length : TypeArg) : Declaration where
  table := "wp_postmeta".toList
  type := "VarChar".toList
  args := [length]
  keys := ["colour".toList]

/-- What it means in the standard catalog. -/
def meaning : Declaration.Meaning where
  valueType := .varchar
  args := [16]
  table := ⟨"postmeta".toList, "meta_id".toList, "post_id".toList, "meta_key".toList,
    "meta_value".toList⟩

theorem spelled_sixteen : Numeral.Spelled 16 " +016".toList :=
  ⟨['+'], 1, by decide +kernel, .inr rfl⟩

end Sample

/-- One declaration is registered, with its length spelled in either way; both declarations are of
one mirror table, so that the second is refused. -/
theorem Settings.setup_outcome_sample :
    let number := Sample.declaration (.int 16)
    let text := Sample.declaration (.text " +016".toList)
    let one : Settings := { mirrors := [number] }
    let two : Settings := { mirrors := [number, text] }
    (∃ b, one.setup = .ok b ∧ { one with mirrors := [text] }.setup = .ok b ∧
      List.Forall₂ (Declaration.Makes .standard) [number] b.finalize.mirrors) ∧
    two.setup = .error (.duplicateMirror Sample.colours.id) := by
  intro number text one two
  have hone : one.setup = .ok Sample.setup := by decide +kernel
  have hmade := ((setup_outcome one).2.1 _ hone).2.1
  have hrespelled := (setup_outcome one).2.2.2 [text]
    (.cons ⟨rfl, rfl, .cons (.spelled Sample.spelled_sixteen) .nil, rfl⟩ .nil)
  have htable : Catalog.standard.get? text.table = some Sample.meaning.table := by decide +kernel
  have hmeans : text.Means .standard Sample.meaning :=
    ⟨by decide +kernel, ValueType.readAs_iff.2 (by decide +kernel),
      Catalog.get?_eq_some_iff.1 htable⟩
  refine ⟨⟨_, hone, hrespelled.trans hone, hmade⟩, ?_⟩
  exact ((setup_outcome two).2.2.1 _).2 ⟨[number], text, [], [Sample.colours], rfl, hmade,
    by decide +kernel, .duplicate hmeans (by decide +kernel) (by decide +kernel)⟩

end TypedMirror
