import TypedMirror.Proofs.Tiling.Bytes
import TypedMirror.Query.Stepwise

/-!
# Cursors

What holds of a cursor wherever it stands, and how it is kept: on the way to a later token, when an
edit is written down for tokens that have been read, and on the way back.

* `placed_of_covers` — the edit of tokens replaces the text that it names;
* `Cursor.Sound` — what a cursor has written down is in order and in its place;
* `Cursor.At.upTo`, `Cursor.At.recorded`, `Cursor.At.withPredicate` — it stays so;
* `Cursor.Extends.rewind_mark` — the way back leads to where the cursor was.
-/

namespace TypedMirror.Stepwise

open Grammar (Covers isIdentifier namePosition)
open Query (Edit tableEdit columnEdit)
open Text (bytes)
open Token (reach)

/-! ## Edits in their place -/

/-- The edit is of a stretch of the source, in characters and in bytes, and replaces what it
names. -/
structure Faithful (source : Text) (e : Edit) : Prop where
  start_le_stop : e.start ≤ e.stop
  stop_le_length : e.stop ≤ source.length
  slice : source.slice e.start e.stop = e.marker.name
  bytes : (bytes source).slice (reach source e.start) (reach source e.stop) = bytes e.marker.name

/-- The edits are in their places, one behind the other, and all in front of the tokens. -/
structure Placed (source : Text) (ts : List Token) (es : List Edit) : Prop where
  faithful : ∀ e ∈ es, Faithful source e
  ordered : es.Pairwise fun e f => e.start < f.start ∧ e.stop ≤ f.start
  front : ∀ e ∈ es, ∀ t ∈ ts, e.start < t.start ∧ e.stop ≤ t.start

section Edits

variable {source : Text} {done us vs ts : List Token} {t : Token} {e : Edit} {es : List Edit}

theorem faithful_of_append {a x b : Text} (hsource : source = a ++ (x ++ b))
    (hstart : e.start = a.length) (hstop : e.stop = a.length + x.length)
    (hname : e.marker.name = x) : Faithful source e := by
  have hreach : reach source e.stop = (bytes a).length + (bytes x).length := by
    rw [hsource, ← List.append_assoc, hstop, ← List.length_append, Token.reach_append,
      Text.bytes_append, List.length_append]
  refine ⟨by omega, ?_, ?_, ?_⟩
  · rw [hstop, hsource, List.length_append, List.length_append]
    omega
  · rw [hstart, hstop, hname, hsource]
    exact Grammar.slice_append a x b
  · rw [hreach, hstart, hname, hsource, Token.reach_append, Text.bytes_append, Text.bytes_append]
    exact Grammar.slice_append _ _ _

theorem take_slice_drop {i j : Nat} (h : i ≤ j) (t : Text) :
    t = t.take i ++ (t.slice i j ++ t.drop j) := by
  have hdrop : t.drop j = (t.drop i).drop (j - i) := by
    rw [List.drop_drop, Nat.add_sub_cancel' h]
  rw [hdrop, Text.slice, List.take_append_drop, List.take_append_drop]

theorem length_slice {i j : Nat} {t : Text} (h : j ≤ t.length) : (t.slice i j).length = j - i := by
  rw [Text.slice, List.length_take, List.length_drop]
  omega

/-- A token of the source has its text at its place. -/
theorem exists_of_read (h : Token.read source = done ++ t :: ts) : ∃ a b,
    source = a ++ (t.text ++ b) ∧ t.start = a.length ∧ t.stop = a.length + t.text.length ∧
      t.Fits b := by
  have htiles := Token.tiles_read source
  rw [h] at htiles
  obtain ⟨a, b, hsource, hstart, hfits, -⟩ := htiles.exists_token
  rw [Nat.zero_add] at hstart
  exact ⟨a, b, hsource, hstart, by rw [Token.stop, hstart], hfits⟩

theorem start_lt_stop_of_read (h : Token.read source = done ++ (us ++ ts)) (ht : t ∈ us) :
    t.start < t.stop := by
  have hmem : t ∈ Token.readFrom 0 source := by
    show t ∈ Token.read source
    rw [h]
    simp [ht]
  exact Token.start_lt_stop hmem

theorem stop_le_start_of_read (h : Token.read source = done ++ (us ++ ts)) {u : Token} (ht : t ∈ us)
    (hu : u ∈ ts) : t.stop ≤ u.start := by
  have hpairwise : (Token.read source).Pairwise fun t u => t.stop ≤ u.start :=
    Token.pairwise_readFrom 0 source
  rw [h, List.pairwise_append, List.pairwise_append] at hpairwise
  exact hpairwise.2.1.2.2 t ht u hu

/-- From one token to the end of another one behind it. -/
theorem stretch_of_read {n : Token} (h : Token.read source = done ++ t :: (us ++ n :: ts)) :
    t.start < n.stop ∧ n.stop ≤ source.length := by
  have ht : Token.read source = done ++ ([t] ++ (us ++ n :: ts)) := h
  have hn : Token.read source = (done ++ t :: us) ++ ([n] ++ ts) := by
    rw [h]
    simp
  obtain ⟨a, b, hsource, hstart, hstop, -⟩ := exists_of_read hn
  have hlt := start_lt_stop_of_read ht List.mem_cons_self
  have hle := stop_le_start_of_read (u := n) ht List.mem_cons_self (by simp)
  have hlt' := start_lt_stop_of_read hn List.mem_cons_self
  have hlength := congrArg List.length hsource
  rw [List.length_append, List.length_append] at hlength
  omega

theorem stop_of_read (us : List Token) {n : Token}
    (h : Token.read source = done ++ t :: (us ++ n :: ts)) :
    t.start + (source.slice t.start n.stop).length = n.stop := by
  obtain ⟨hlt, hle⟩ := stretch_of_read h
  rw [length_slice hle]
  omega

/-- The edit of tokens starts with the first of them, and ends with one of them. -/
theorem placed_of_covers (h : Token.read source = done ++ (us ++ ts)) (he : Covers source us e) :
    Faithful source e ∧ (∀ t ∈ us.head?, t.start ≤ e.start) ∧
      ∃ t ∈ us, e.start < t.stop ∧ e.stop ≤ t.stop := by
  cases he with
  | @table t hid =>
    obtain ⟨a, b, hsource, hstart, hstop, hfits⟩ := exists_of_read h
    have hlt := start_lt_stop_of_read h List.mem_cons_self
    obtain ⟨-, ⟨-, hname, hposition, -⟩ | ⟨hposition, htext⟩⟩ :=
      Grammar.cases_of_isIdentifier hid hfits
    · have hplace : namePosition t = a.length := hposition.trans hstart
      refine ⟨faithful_of_append hsource hplace ?_ hname, ?_, t, List.mem_cons_self, ?_, ?_⟩
      · show namePosition t + t.name.length = _
        rw [hplace, hname]
      · rintro _ ⟨⟩
        exact Nat.le_of_eq hposition.symm
      · show namePosition t < t.stop
        omega
      · show namePosition t + t.name.length ≤ t.stop
        rw [hplace, hname, hstop]
    · -- the name stands between the backticks
      have hlength : t.text.length = t.name.length + 2 := by
        rw [htext]
        simp
      have hplace : namePosition t = (a ++ [Token.backtick]).length := by
        rw [hposition, hstart, List.length_append]
        rfl
      have hsplit : source = (a ++ [Token.backtick]) ++ (t.name ++ ([Token.backtick] ++ b)) := by
        rw [hsource, htext]
        simp
      refine ⟨faithful_of_append hsplit hplace ?_ rfl, ?_, t, List.mem_cons_self, ?_, ?_⟩
      · show namePosition t + t.name.length = _
        rw [hplace]
      · rintro _ ⟨⟩
        show t.start ≤ namePosition t
        omega
      · show namePosition t < t.stop
        omega
      · show namePosition t + t.name.length ≤ t.stop
        omega
  | @column t hid =>
    obtain ⟨a, b, hsource, hstart, hstop, -⟩ := exists_of_read h
    have hlt := start_lt_stop_of_read h List.mem_cons_self
    refine ⟨faithful_of_append hsource hstart ?_ rfl, ?_, t, List.mem_cons_self, hlt,
      Nat.le_refl _⟩
    · show t.start + t.text.length = _
      rw [hstart]
    · rintro _ ⟨⟩
      exact Nat.le_refl _
  | @qualified t dot n hid hdot hn =>
    have hread : Token.read source = done ++ t :: ([dot] ++ n :: ts) := h
    obtain ⟨hlt, hle⟩ := stretch_of_read hread
    have hlength := stop_of_read [dot] hread
    have htake : t.start = (source.take t.start).length := by
      rw [List.length_take]
      omega
    refine ⟨faithful_of_append (take_slice_drop (Nat.le_of_lt hlt) source) htake ?_ rfl, ?_, n,
      by simp, hlt, Nat.le_of_eq hlength⟩
    · exact congrArg (· + _) htake
    · rintro _ ⟨⟩
      exact Nat.le_refl _

theorem Placed.of_suffix (h : Placed source vs es) (hts : ts <:+ vs) : Placed source ts es :=
  ⟨h.faithful, h.ordered, fun e he t ht => h.front e he t (hts.subset ht)⟩

/-- The edit of tokens that come next may be written down. -/
theorem Placed.concat (h : Placed source (us ++ vs) es)
    (hread : Token.read source = done ++ (us ++ vs)) (he : Covers source us e) :
    Placed source vs (es ++ [e]) := by
  obtain ⟨hfaithful, hhead, t, ht, hstart, hstop⟩ := placed_of_covers hread he
  obtain ⟨u, us, rfl⟩ := List.exists_cons_of_ne_nil (List.ne_nil_of_mem ht)
  refine ⟨?_, ?_, ?_⟩
  · intro f hf
    rcases List.mem_append.1 hf with hf | hf
    · exact h.faithful f hf
    · exact List.mem_singleton.1 hf ▸ hfaithful
  · refine List.pairwise_append.2 ⟨h.ordered, List.pairwise_singleton _ _, ?_⟩
    intro f hf g hg
    rw [List.mem_singleton.1 hg]
    obtain ⟨hlt, hle⟩ := h.front f hf u List.mem_cons_self
    have := hhead u rfl
    exact ⟨Nat.lt_of_lt_of_le hlt this, Nat.le_trans hle this⟩
  · intro f hf v hv
    rcases List.mem_append.1 hf with hf | hf
    · exact h.front f hf v (List.mem_append_right _ hv)
    · have := stop_le_start_of_read hread ht hv
      rw [List.mem_singleton.1 hf]
      omega

end Edits

/-! ## Cursors in order -/

namespace Cursor

/-- What the cursor has written down is one edit for each table and then one for each column of a
predicate, and they are in their places in front of the tokens it has not read. -/
structure Sound (source : Text) (c : Cursor) : Prop where
  position_le : c.position ≤ (Token.read source).length
  edits : c.edits = c.tables.map tableEdit ++ c.predicates.map (columnEdit ·.column)
  placed : Placed source (c.rest source) c.edits

/-- With the tokens read up to `ts`. -/
def upTo (source : Text) (ts : List Token) (c : Cursor) : Cursor :=
  { c with position := (Token.read source).length - ts.length }

variable {source : Text} {c c' c'' : Cursor} {t : Token} {us ts : List Token}

theorem rest_suffix (source : Text) (c : Cursor) : c.rest source <:+ Token.read source :=
  List.drop_suffix _ _

theorem rest_upTo (h : ts <:+ Token.read source) (c : Cursor) :
    (c.upTo source ts).rest source = ts := by
  obtain ⟨done, hdone⟩ := h
  rw [rest, upTo, ← hdone]
  exact List.drop_left' (by rw [List.length_append, Nat.add_sub_cancel])

theorem rest_upTo' (h : ts <:+ c.rest source) : (c.upTo source ts).rest source = ts :=
  rest_upTo (h.trans (rest_suffix source c)) c

theorem Sound.upTo_rest (h : c.Sound source) : c.upTo source (c.rest source) = c := by
  have hle := h.position_le
  rw [upTo, rest, List.length_drop, Nat.sub_sub_self hle]

theorem moved_length (us : List Token) (h : c.rest source = us ++ ts) (hne : us ≠ []) :
    c.moved us.length = c.upTo source ts := by
  have hlength := congrArg List.length h
  have hpos := List.length_pos_iff.2 hne
  rw [rest, List.length_drop, List.length_append] at hlength
  have hposition : c.position + us.length = (Token.read source).length - ts.length := by omega
  rw [moved, upTo, hposition]

@[simp] theorem upTo_upTo (source : Text) (ts us : List Token) (c : Cursor) :
    (c.upTo source us).upTo source ts = c.upTo source ts := rfl

theorem start_sound (source : Text) : start.Sound source :=
  ⟨Nat.zero_le _, rfl, by simp [start], .nil, by simp [start]⟩

theorem Sound.upTo (h : c.Sound source) (hts : ts <:+ c.rest source) :
    (c.upTo source ts).Sound source := by
  refine ⟨Nat.sub_le _ _, h.edits, ?_⟩
  rw [rest_upTo' hts]
  exact h.placed.of_suffix hts

/-- The cursor is in order, and `ts` are the tokens that have not been read. -/
structure At (source : Text) (c : Cursor) (ts : List Token) : Prop where
  sound : c.Sound source
  rest : c.rest source = ts

theorem At.upTo (h : c.At source ts) (hus : us <:+ ts) : (c.upTo source us).At source us := by
  rw [← h.rest] at hus
  exact ⟨h.sound.upTo hus, rest_upTo' hus⟩

theorem At.upTo_self (h : c.At source ts) : c.upTo source ts = c := by
  rw [← h.rest]
  exact h.sound.upTo_rest

theorem nameEdit_eq {done : List Token} {x : TableRef} (h : Token.read source = done ++ t :: us)
    (ht : isIdentifier t = true) (hname : x.name = t.name)
    (hposition : x.position = namePosition t) : nameEdit t = tableEdit x := by
  obtain ⟨a, b, -, -, hstop, hfits⟩ := exists_of_read h
  unfold nameEdit tableEdit
  rw [hname, hposition]
  obtain ⟨-, ⟨hkind, hname, hposition, -⟩ | ⟨hposition, htext⟩⟩ :=
    Grammar.cases_of_isIdentifier ht hfits
  · rw [if_neg (by rw [hkind]; decide), hposition, hname]
    rfl
  · have hkind : t.kind = .quotedName := by
      by_contra hkind
      unfold namePosition at hposition
      rw [if_neg hkind] at hposition
      omega
    have hlength : t.text.length = t.name.length + 2 := by
      rw [htext]
      simp
    have hstop : t.stop - 1 = t.start + 1 + t.name.length := by
      rw [Token.stop]
      omega
    rw [if_pos hkind, hposition, hstop]

/-- With a table written down. -/
def recorded (x : TableRef) (c : Cursor) : Cursor :=
  { c with edits := c.edits ++ [tableEdit x], tables := c.tables ++ [x] }

/-- A table whose name comes next may be written down once its alias has been read. -/
theorem At.recorded {x : TableRef} (h : c.At source (t :: us)) (ht : isIdentifier t = true)
    (hname : x.name = t.name) (hposition : x.position = namePosition t) (hp : c.predicates = [])
    (hts : ts <:+ us) : ((c.upTo source ts).withTable t x) = (c.upTo source ts).recorded x ∧
      ((c.upTo source ts).recorded x).Sound source := by
  obtain ⟨done, hdone⟩ := rest_suffix source c
  rw [h.rest] at hdone
  have hsuffix : ts <:+ t :: us := hts.trans (List.suffix_cons t us)
  have hedit := nameEdit_eq hdone.symm ht hname hposition
  have hcovers : Covers source [t] (tableEdit x) := by
    rw [tableEdit, hname, hposition]
    exact .table ht
  have hplaced : Placed source ([t] ++ us) c.edits := by
    have := h.sound.placed
    rw [h.rest] at this
    exact this
  refine ⟨?_, (h.upTo hsuffix).sound.position_le, ?_, ?_⟩
  · rw [withTable, hedit]
    rfl
  · show c.edits ++ [tableEdit x] =
      (c.tables ++ [x]).map tableEdit ++ c.predicates.map (columnEdit ·.column)
    rw [h.sound.edits, hp]
    simp
  · show Placed source ((c.upTo source ts).rest source) (c.edits ++ [tableEdit x])
    rw [(h.upTo hsuffix).rest]
    exact (hplaced.concat hdone.symm hcovers).of_suffix hts

/-- The column of a predicate that comes next may be written down once the operator has been
read. -/
theorem At.withPredicate {p : Predicate} {start stop : Nat} (h : c.At source (us ++ ts))
    (hcovers : Covers source us (columnEdit p.column))
    (hedit : columnEdit p.column = ⟨start, stop, ⟨.column, p.column.raw⟩⟩) {vs : List Token}
    (hvs : vs <:+ ts) : ((c.upTo source vs).withPredicate start stop p).Sound source := by
  obtain ⟨done, hdone⟩ := rest_suffix source c
  rw [h.rest] at hdone
  have hvs' := h.upTo (hvs.trans (List.suffix_append us ts))
  have hplaced : Placed source (us ++ ts) c.edits := h.rest ▸ h.sound.placed
  refine ⟨hvs'.sound.position_le, ?_, ?_⟩
  · show c.edits ++ [_] = c.tables.map tableEdit ++ (c.predicates ++ [p]).map (columnEdit ·.column)
    rw [h.sound.edits, ← hedit]
    simp
  · show Placed source ((c.upTo source vs).rest source) (c.edits ++ [_])
    rw [hvs'.rest, ← hedit]
    exact (hplaced.concat hdone.symm hcovers).of_suffix hvs

/-! ### The way back -/

/-- The cursor has moved and has written more down. -/
structure Extends (c c' : Cursor) : Prop where
  edits : c.edits <+: c'.edits
  tables : c.tables <+: c'.tables
  joins : c.joins <+: c'.joins
  predicates : c.predicates <+: c'.predicates
  usesOr : c'.usesOr = c.usesOr

theorem Extends.refl (c : Cursor) : c.Extends c :=
  ⟨List.prefix_refl _, List.prefix_refl _, List.prefix_refl _, List.prefix_refl _, rfl⟩

theorem Extends.trans (h : c.Extends c') (h' : c'.Extends c'') : c.Extends c'' :=
  ⟨h.edits.trans h'.edits, h.tables.trans h'.tables, h.joins.trans h'.joins,
    h.predicates.trans h'.predicates, h'.usesOr.trans h.usesOr⟩

theorem extends_upTo (source : Text) (ts : List Token) (c : Cursor) :
    c.Extends (c.upTo source ts) :=
  ⟨List.prefix_refl _, List.prefix_refl _, List.prefix_refl _, List.prefix_refl _, rfl⟩

theorem extends_recorded (c : Cursor) (x : TableRef) : c.Extends (c.recorded x) :=
  ⟨List.prefix_append _ _, List.prefix_append _ _, List.prefix_refl _, List.prefix_refl _, rfl⟩

theorem Extends.rewind_mark (h : c.Extends c') : c'.rewind c.mark = c := by
  have hedits := List.prefix_iff_eq_take.1 h.edits
  have htables := List.prefix_iff_eq_take.1 h.tables
  have hjoins := List.prefix_iff_eq_take.1 h.joins
  have hpredicates := List.prefix_iff_eq_take.1 h.predicates
  rw [rewind, mark]
  dsimp only
  rw [← hedits, ← htables, ← hjoins, ← hpredicates, h.usesOr]

end Cursor

end TypedMirror.Stepwise
