import TypedMirror.Proofs.Renaming.Likeness
import TypedMirror.Proofs.Rendering
import TypedMirror.Proofs.Separators
import TypedMirror.Proofs.Words

/-!
# Words outside the references of tables

A routed table may be named nowhere but in its references.  The search for its name goes over the
template without the table markers: the same words stand there as in the deflated query, apart from
those of the references, since no word goes over the ends of a name.

* `edged_of_marks` — what is replaced in the template is cut off from the words around it;
* `Patch.expand_patched` — the template without its table markers;
* `exists_run` — its words;
* `mentions_exact` — what the search says of a text, and of a query that is routed.
-/

namespace TypedMirror

open Text (Parted)

/-! ## The ends of names -/

namespace Grammar

open Marker (isOwnChar)
open Query (Edit)
open Token (Tiles backtick)

/-- What an edit replaces is the text that it names, and no word goes over its ends.  What a table
marker replaces is no part of a longer word either. -/
structure Edged (source : Text) (e : Edit) (before behind : Text) : Prop where
  split : source = before ++ (e.marker.name ++ behind)
  start : e.start = before.length
  stop : e.stop = e.start + e.marker.name.length
  left : Parted before (e.marker.name ++ behind)
  table : e.marker.kind = .table → ∀ c ∈ before.getLast?, Text.isWordChar c = false
  right : Parted e.marker.name behind

variable {source done text : Text} {start : Nat} {p t : Token} {us ts : List Token} {e : Edit}
  {es : List Edit}

theorem Marks.exists_behind (h : Marks source ts es) (he : e ∈ es) :
    ∃ as p us bs, ts = as ++ p :: (us ++ bs) ∧ Introduces p ∧ Covers source us e := by
  induction h with
  | none => cases he
  | @some as us ts p e' es hp hcovers _ ih =>
    rcases List.mem_cons.1 he with rfl | he
    · exact ⟨as, p, us, ts, rfl, hp, hcovers⟩
    · obtain ⟨bs, q, vs, cs, rfl, hq, hcovers⟩ := ih he
      exact ⟨as ++ p :: (us ++ bs), q, vs, cs, by simp, hq, hcovers⟩

theorem not_isWordChar_of_isOwnChar {c : Char} (h : isOwnChar c = false) :
    Text.isWordChar c = false := by
  unfold isOwnChar at h
  simp only [Bool.or_eq_false_iff] at h
  exact h.2

/-- The end of a name: a word ends before another character, and a name in backticks with one. -/
theorem parted_of_fits {rest : Text} (x : Text) (h : t.Fits rest)
    (hkind : t.kind = .word ∨ t.kind = .quotedName) : Parted (x ++ t.text) rest := by
  rcases hkind with hkind | hkind
  · exact .inr (h.word hkind).2.2
  · obtain ⟨name, hname⟩ := h.quotedName hkind
    refine .inl ?_
    intro c hc
    rw [hname, ← List.append_assoc, List.getLast?_concat] at hc
    cases hc
    decide

theorem edged_of_covers (hsource : source = done ++ text)
    (ht : Tiles done.length text (p :: (us ++ ts))) (hp : Introduces p) (he : Covers source us e) :
    ∃ before behind, Edged source e before behind := by
  -- the character in front of the first token
  have left : ∀ {a x : Text} {c : Char}, (isOwnChar c = false ∨
      ∀ d ∈ x.head?, Text.isWordChar d = false) → Parted (done ++ a ++ [c]) x := by
    intro a x c h
    refine h.imp (fun hc => ?_) id
    intro d hd
    rw [List.getLast?_concat] at hd
    cases hd
    exact not_isWordChar_of_isOwnChar hc
  cases he with
  | @table t hid =>
    obtain ⟨a, c, rest, htext, hstart, -, hbegin, hf, -⟩ := exists_behind ht hp
    obtain ⟨-, ⟨hkind, hname, hposition, d, w, hhead, hd⟩ | ⟨hposition, hquoted⟩⟩ :=
      cases_of_isIdentifier hid hf
    · -- the name is a word, so that none ends in front of it
      have hc : Text.isWordChar c = false := by
        rcases hbegin with hbegin | hbegin
        · exact not_isWordChar_of_isOwnChar hbegin
        · rw [hbegin d (by rw [hhead]; rfl)] at hd
          cases hd
      have hedge : ∀ d ∈ (done ++ a ++ [c]).getLast?, Text.isWordChar d = false := by
        intro d hd
        rw [List.getLast?_concat] at hd
        cases hd
        exact hc
      refine ⟨done ++ a ++ [c], rest, ?_, ?_, rfl, .inl hedge, fun _ => hedge, ?_⟩
      · rw [hsource, htext, hname]
        simp
      · simp [hposition, hstart]
      · dsimp only
        rw [hname]
        exact .inr (hf.word hkind).2.2
    · have hedge : ∀ d ∈ (done ++ a ++ [c, backtick]).getLast?, Text.isWordChar d = false := by
        intro d hd
        simp at hd
        rw [← hd]
        decide
      refine ⟨done ++ a ++ [c, backtick], backtick :: rest, ?_, ?_, rfl, .inl hedge, fun _ => hedge,
        .inr ?_⟩
      · rw [hsource, htext, hquoted]
        simp
      · simp [hposition, hstart, Nat.add_assoc]
      · intro d hd
        cases hd
        decide
  | @column t hid =>
    obtain ⟨a, c, rest, htext, hstart, -, hbegin, hf, -⟩ := exists_behind ht hp
    refine ⟨done ++ a ++ [c], rest, ?_, ?_, rfl, left hbegin, by rintro ⟨⟩,
      parted_of_fits [] hf ((kind_of_isIdentifier hid).imp_left And.left)⟩
    · rw [hsource, htext]
      simp
    · simp [hstart]
  | @qualified t dot n hid hdot hn =>
    obtain ⟨a, c, rest, htext, hstart, -, hbegin, hf, htail⟩ := exists_behind ht hp
    have htail : Tiles t.stop rest ([dot] ++ n :: ts) := htail
    obtain ⟨x, after, hrest, hn', hfits, -⟩ := htail.exists_token
    -- from the first token to the end of the last
    have hslice : source.slice t.start n.stop = t.text ++ x ++ n.text := by
      have hfront : t.start = (done ++ a ++ [c]).length := by simp [hstart]
      have hstop : n.stop = (done ++ a ++ [c]).length + (t.text ++ x ++ n.text).length := by
        rw [Token.stop, hn', Token.stop, hfront]
        simp [Nat.add_assoc]
      have hwhole : source = (done ++ a ++ [c]) ++ ((t.text ++ x ++ n.text) ++ after) := by
        rw [hsource, htext, hrest]
        simp
      rw [hstop, hfront, hwhole]
      exact slice_append _ _ _
    refine ⟨done ++ a ++ [c], after, ?_, ?_, rfl, left ?_, by rintro ⟨⟩, ?_⟩
    · dsimp only
      rw [hslice, hsource, htext, hrest]
      simp
    · simp [hstart]
    · dsimp only
      rw [hslice, List.append_assoc, List.append_assoc, ← hrest]
      exact hbegin
    · dsimp only
      rw [hslice]
      exact parted_of_fits _ hfits hn

theorem edged_of_marks (hm : Marks source ts es) (ht : Tiles 0 source ts) (he : e ∈ es) :
    ∃ before behind, Edged source e before behind := by
  obtain ⟨as, p, us, bs, rfl, hp, hcovers⟩ := hm.exists_behind he
  obtain ⟨a, b, rfl, hb⟩ := ht.of_append
  rw [Nat.zero_add] at hb
  exact edged_of_covers rfl hb hp hcovers

end Grammar

/-! ## The template without its table markers -/

namespace Template

variable {ss : List Segment} {resolve : Marker → Option Text} {raw : Text} {m : Marker}

theorem expand_eq_text (h : ∀ m, .marker m ∈ ss → resolve m = none) :
    ss.flatMap (Segment.expand resolve) = ss.flatMap Segment.text := by
  refine List.flatMap_congr fun s hs => ?_
  cases s with
  | char c => rfl
  | marker m =>
    rw [Segment.expand, h m hs]
    rfl

/-- What is read of a column marker is a marker of a column again, or one of the column's text. -/
theorem mem_segments_column (hread : Readable ss) (hss : ss.flatMap Segment.text = raw)
    (hraw : raw.Sealed) (hm : .marker m ∈ segments (column raw).write) :
    m.kind = .column ∨ .marker m ∈ ss := by
  have hplain : ∀ x : Text, .marker m ∉ x.map Segment.char := by
    intro x hx
    obtain ⟨c, -, hc⟩ := List.mem_map.1 hx
    cases hc
  rw [← List.append_nil (column raw).write] at hm
  cases hclosing : Text.has raw Marker.closing with
  | false =>
    have hwrite := Marker.read?_write (m := column raw) (plain_of_noClosing hread hss hraw hclosing) []
    rw [segments_of_read? hwrite, segments_nil] at hm
    cases List.mem_singleton.1 hm
    exact .inl rfl
  | true =>
    obtain ⟨⟨a, b⟩, hcut⟩ := Option.isSome_iff_exists.1 hclosing
    cases ha : Text.has a Marker.opening with
    | true =>
      rw [segments_write_kept hread hss hcut ha, segments_nil, List.append_nil] at hm
      rcases List.mem_append.1 hm with hm | hm
      · rcases List.mem_append.1 hm with hm | hm
        · exact absurd hm (hplain _)
        · exact .inr hm
      · exact absurd hm (hplain _)
    | false =>
      obtain ⟨us, rfl, hus⟩ := exists_of_closing (hss.trans (Text.cut_eq_some hcut)) ha
      rw [segments_write_cut hread.right hus hcut ha, segments_nil, List.append_nil] at hm
      rcases List.mem_append.1 hm with hm | hm
      · rcases List.mem_cons.1 hm with hm | hm
        · cases hm
          exact .inl rfl
        · exact .inr (List.mem_append_right _ hm)
      · exact absurd hm (hplain _)

end Template

namespace Patch

open Template
open Query (Edit)

variable {ps : List Patch} {last : List Segment} {source done a b w : Text} {p : Patch}

/-- What is left of a patch when the table markers are taken out. -/
def kept (p : Patch) : Text := if p.marker.kind = .table then [] else p.marker.write

/-- A text of patches when the table markers are taken out. -/
def keptText (ps : List Patch) (last : List Segment) : Text :=
  ps.flatMap (fun p => p.gap.flatMap Segment.text ++ p.kept) ++ last.flatMap Segment.text

theorem expand_patched (hread : Readable (Patch.source ps last)) (hsound : ∀ p ∈ ps, p.Sound)
    (hstored : ∀ m, .marker m ∈ Patch.source ps last → m.IsStored) :
    expand (fun m => if m.kind = .table then some [] else none)
      (ps.flatMap (fun p => p.gap.flatMap Segment.text ++ p.marker.write)
        ++ last.flatMap Segment.text) = keptText ps last := by
  have hkept : ∀ {ss : List Segment}, (∀ s ∈ ss, s ∈ Patch.source ps last) →
      ss.flatMap (Segment.expand fun m => if m.kind = .table then some [] else none) =
        ss.flatMap Segment.text := by
    intro ss hss
    refine expand_eq_text fun m hm => ?_
    rcases hstored m (hss _ hm) with rfl | ⟨id, rfl⟩
    · rfl
    · rfl
  have hmem : ∀ p ∈ ps, ∀ s ∈ p.gap ++ p.covered, s ∈ Patch.source ps last := fun p hp s hs =>
    List.mem_append_left _ (List.mem_flatMap.2 ⟨p, hp, hs⟩)
  unfold expand keptText
  rw [segments_patched hread hsound, List.flatMap_append, List.flatMap_assoc,
    hkept fun s hs => List.mem_append_right _ hs]
  refine congrArg (· ++ _) (List.flatMap_congr fun p hp => ?_)
  have hp' := hsound p hp
  have hcovered := (readable_of_mem hread hp).2
  rw [List.flatMap_append, hkept fun s hs => hmem p hp s (List.mem_append_left _ hs)]
  refine congrArg (_ ++ ·) ?_
  rcases hp'.kind with hkind | hplain
  · -- no marker of a table is read in that of a column
    rw [kept, if_neg (by rw [hkind]; decide), expand_eq_text, reading, text_segments]
    intro m hm
    rw [reading, eq_column hkind] at hm
    rcases mem_segments_column hcovered hp'.name hp'.bound hm with hm | hm
    · rw [hm]
      rfl
    · rcases hstored m (hmem p hp _ (List.mem_append_right _ hm)) with rfl | ⟨id, rfl⟩
      · rfl
      · rfl
  · rw [reading_of_noClosing hp' hcovered hplain, List.flatMap_singleton, Segment.expand, kept]
    split
    · rfl
    · rfl

theorem keptText_cons (p : Patch) (ps : List Patch) (last : List Segment) :
    keptText (p :: ps) last = p.gap.flatMap Segment.text ++ (p.kept ++ keptText ps last) := by
  simp [keptText]

/-- A table marker leaves nothing, and one of a column ends in brackets. -/
theorem parted_kept (p : Patch) (x : Text) : Parted p.kept x := by
  refine .inl fun c hc => ?_
  unfold kept at hc
  split at hc
  · cases hc
  · rw [Marker.write, Marker.closing, List.getLast?_append] at hc
    cases hc
    decide

/-- The words of a column are words of its marker. -/
theorem exists_run_kept {x : Text} (hkind : p.marker.kind ≠ .table)
    (h : Text.Run p.marker.name a w b) : ∃ a' b', Text.Run (p.kept ++ x) a' w b' := by
  have hright : Parted p.marker.name Marker.closing := .inr fun c hc => by
    cases hc
    decide
  have hleft : Parted (Marker.opening ++ p.marker.kind.word ++ [':'])
      (p.marker.name ++ Marker.closing) := by
    refine .inl fun c hc => ?_
    rw [List.getLast?_concat] at hc
    cases hc
    decide
  have hwrite : p.kept =
      Marker.opening ++ p.marker.kind.word ++ [':'] ++ (p.marker.name ++ Marker.closing) := by
    rw [kept, if_neg hkind, Marker.write]
    simp
  have hkept := (h.append_right hright).append_left hleft
  rw [← hwrite] at hkept
  exact ⟨_, _, hkept.append_right (parted_kept p x)⟩

/-- A word that is no part of a table's name is left. -/
theorem exists_run (hsound : ∀ p ∈ ps, p.Sound)
    (hsource : source = done ++ (Patch.source ps last).flatMap Segment.text)
    (hedged : ∀ e ∈ edits done.length ps, ∃ before behind, Grammar.Edged source e before behind)
    (hrun : Text.Run ((Patch.source ps last).flatMap Segment.text) a w b)
    (hout : ∀ e ∈ edits done.length ps, e.marker.kind = .table →
      ¬ (e.start ≤ done.length + a.length ∧ done.length + a.length + w.length ≤ e.stop)) :
    ∃ a' b', Text.Run (keptText ps last) a' w b' := by
  induction ps generalizing done a b with
  | nil => exact ⟨a, b, hrun⟩
  | cons p ps ih =>
    have hp := hsound p List.mem_cons_self
    have htext : (Patch.source (p :: ps) last).flatMap Segment.text = p.gap.flatMap Segment.text ++
        (p.marker.name ++ (Patch.source ps last).flatMap Segment.text) := by
      rw [source_cons, List.flatMap_append, List.flatMap_append, hp.name]
    rw [htext] at hsource hrun
    generalize hgap : p.gap.flatMap Segment.text = gap at htext hsource hrun
    rw [edits, hgap, List.forall_mem_cons] at hedged hout
    obtain ⟨⟨before, behind, hedge⟩, hedged⟩ := hedged
    obtain ⟨htable, hout⟩ := hout
    have hleft : Parted before (p.marker.name ++ behind) := hedge.left
    have hright : Parted p.marker.name behind := hedge.right
    dsimp only at htable
    -- the text of the patch stands where its edit says
    obtain ⟨rfl, hbehind⟩ : before = done ++ gap ∧ p.marker.name ++ behind =
        p.marker.name ++ (Patch.source ps last).flatMap Segment.text := by
      refine List.append_inj ?_ (by rw [← hedge.start, List.length_append])
      rw [← hedge.split, hsource, List.append_assoc]
    obtain rfl := List.append_cancel_left hbehind
    have hkept : Parted gap (p.kept ++ keptText ps last) := by
      by_cases hkind : p.marker.kind = .table
      · exact Text.Parted.of_append (.inl (hedge.table hkind))
      · refine .inr fun c hc => ?_
        rw [kept, if_neg hkind] at hc
        cases hc
        decide
    rw [keptText_cons, hgap]
    rcases hrun.of_append hleft.of_append with ⟨b', hfront⟩ | ⟨a', rfl, hmiddle⟩
    · exact ⟨a, _, hfront.append_right hkept⟩
    rcases hmiddle.of_append hright with ⟨b', hname⟩ | ⟨a'', rfl, hrest⟩
    · have hkind : p.marker.kind ≠ .table := by
        intro hkind
        refine htable hkind ⟨?_, ?_⟩
        · simp
        · have := congrArg List.length hname.split
          simp only [List.length_append] at this ⊢
          omega
      obtain ⟨_, _, h⟩ := exists_run_kept (x := keptText ps last) hkind hname
      exact ⟨_, _, h.append_left hkept⟩
    · have hlength : done.length + gap.length + p.marker.name.length =
          (done ++ gap ++ p.marker.name).length := by simp [Nat.add_assoc]
      rw [hlength] at hedged hout
      obtain ⟨_, _, h⟩ := ih (fun x hx => hsound x (List.mem_cons_of_mem p hx))
        (by rw [hsource]; simp) hedged hrest fun e he hkind hinside => hout e he hkind (by
          simp only [List.length_append] at hinside ⊢
          omega)
      exact ⟨_, _, (h.append_left (parted_kept p _)).append_left hkept⟩

end Patch

/-! ## Queries -/

namespace Query

open Template Patch

variable {query : Text} {q : Query}

/-- A word of the deflated query that stands in no reference of a table is one of the template
without its table markers. -/
theorem exists_run_withoutTables (h : Query.parse query = .ok q) (hop : q.operation ≠ none)
    {a w b : Text} (hrun : Text.Run (Deflated.ofQuery query).query a w b)
    (hout : ∀ x ∈ q.tables,
      ¬ (x.position ≤ a.length ∧ a.length + w.length ≤ x.position + x.name.length)) :
    ∃ a' b', Text.Run (Routing.withoutTables q) a' w b' := by
  obtain ⟨hmarks, htemplate, -⟩ := exists_marks_of_parse h hop
  have hedged := fun e he => Grammar.edged_of_marks (e := e) hmarks (Token.tiles_read _) he
  have hfitted := Grammar.fitted_of_marks [] hmarks rfl (Token.tiles_read _)
  have hstored : ∀ m, .marker m ∈ Deflated.segmentsOf query → m.IsStored := fun _ =>
    Deflated.isStored_of_mem_segmentsOf
  obtain ⟨ps, last, hsegments, hedits, hsound⟩ := exists_patches hfitted hstored
    (Deflated.text_segmentsOf query)
  have hread : Readable (Patch.source ps last) := hsegments ▸ Deflated.readable_ofQuery query
  have htext : (Deflated.ofQuery query).query = (Patch.source ps last).flatMap Segment.text := by
    rw [← hsegments, Deflated.text_segmentsOf]
  have hwithout : Routing.withoutTables q = keptText ps last := by
    rw [Routing.withoutTables, htemplate, hedits, htext, List.length_nil, splice_edits hsound]
    exact expand_patched hread hsound (hsegments ▸ hstored)
  rw [hwithout]
  rw [hedits] at hedged
  have hsource : (Deflated.ofQuery query).query =
      [] ++ (Patch.source ps last).flatMap Segment.text := htext
  refine exists_run hsound hsource hedged (htext ▸ hrun) ?_
  intro e he hkind hinside
  rw [← hedits] at he
  rcases List.mem_append.1 he with he | he
  · obtain ⟨x, hx, rfl⟩ := List.mem_map.1 he
    simp only [List.length_nil, Nat.zero_add] at hinside
    exact hout x hx hinside
  · obtain ⟨x, -, rfl⟩ := List.mem_map.1 he
    cases hkind

/-- The name of a table stands where its reference says. -/
theorem slice_of_mem_tables (h : Query.parse query = .ok q) (hop : q.operation ≠ none) {x : TableRef}
    (hx : x ∈ q.tables) :
    (Deflated.ofQuery query).query.slice x.position (x.position + x.name.length) = x.name := by
  obtain ⟨hmarks, -, -⟩ := exists_marks_of_parse h hop
  have hmem : tableEdit x ∈ q.tables.map tableEdit ++ q.predicates.map (columnEdit ·.column) :=
    List.mem_append_left _ (List.mem_map_of_mem hx)
  obtain ⟨before, behind, hedge⟩ := Grammar.edged_of_marks hmarks (Token.tiles_read _) hmem
  have hstart : x.position = before.length := hedge.start
  rw [hedge.split, hstart]
  exact Grammar.slice_append before x.name behind

end Query

namespace Routing

/-- A valid name is found in a text just where it is one of the words of the text.  So where a query
is routed, the name of a routed table stands as a word of the deflated query nowhere but inside the
names that are recorded as references of tables. -/
theorem mentions_exact :
    (∀ text name, Identifier.isValid name = true →
      (Text.mentions text name = true ↔ ∃ before behind, Text.Run text before name behind)) ∧
    ∀ mirrors query, ∀ route ∈ (decision mirrors query).routes, ∃ q, Query.parse query = .ok q ∧
      (∀ x ∈ q.tables, (Deflated.ofQuery query).query.slice x.position
        (x.position + x.name.length) = x.name) ∧
      ∀ before behind, Text.Run (Deflated.ofQuery query).query before route.source behind →
        ∃ x ∈ q.tables, x.position ≤ before.length ∧
          before.length + route.source.length ≤ x.position + x.name.length := by
  constructor
  · intro text name hname
    unfold Identifier.isValid at hname
    rw [Bool.and_eq_true, Bool.not_eq_true', List.all_eq_true] at hname
    exact Text.mentions_iff ⟨by simpa using hname.1, hname.2⟩
  · intro mirrors query route hroute
    obtain ⟨q, hq, -, hselect, hmentions, hdecision⟩ := decision_of_routes (List.ne_nil_of_mem hroute)
    have hop : q.operation ≠ none := by
      rw [hselect]
      decide
    refine ⟨q, hq, fun x hx => Query.slice_of_mem_tables hq hop hx, ?_⟩
    intro before behind hrun
    rw [hdecision] at hroute
    by_contra hnone
    -- the word is left in the template, where the search finds it
    obtain ⟨a, b, hleft⟩ := Query.exists_run_withoutTables hq hop hrun fun x hx hinside =>
      hnone ⟨x, hx, hinside⟩
    have hfound := (Text.mentions_iff hrun.toIsWord).2 ⟨a, b, hleft⟩
    rw [hmentions route hroute] at hfound
    cases hfound

/-- A name that overlaps itself, and a table that is referred to with and without backticks. -/
theorem mentions_exact_sample :
    let name := "aXa".toList
    let query := "SELECT p.wp FROM wp_postmeta p, `wp_postmeta` q WHERE p.a = 'wp_postmeta'".toList
    let route : Route := ⟨"wp_postmeta".toList, "wp_postmeta_mm_varchar_16".toList⟩
    Identifier.isValid name = true ∧
      (∃ before behind, Text.Run "aXaXa é aXa".toList before name behind) ∧
      (¬ ∃ before behind, Text.Run "aXaXa".toList before name behind) ∧
      route ∈ (decision [postmeta] query).routes ∧
      ∀ before behind, Text.Run (Deflated.ofQuery query).query before route.source behind →
        before.length = 17 ∨ before.length = 33 := by
  intro name query route
  have hname : Identifier.isValid name = true := by decide
  have hroute : route ∈ (decision [postmeta] query).routes := by decide +kernel
  obtain ⟨htext, hrouted⟩ := mentions_exact
  refine ⟨hname, (htext _ _ hname).1 (by decide +kernel), ?_, hroute, ?_⟩
  · rw [← htext _ _ hname]
    decide +kernel
  · intro before behind hrun
    obtain ⟨q, hq, -, hinside⟩ := hrouted _ _ _ hroute
    have htables : ∀ q ∈ (Query.parse query).toOption, ∀ x ∈ q.tables,
        x.name.length = 11 ∧ (x.position = 17 ∨ x.position = 33) := by decide +kernel
    obtain ⟨x, hx, hstart, hstop⟩ := hinside _ _ hrun
    obtain ⟨hlength, hposition⟩ := htables q (by rw [hq]; rfl) x hx
    have hsource : route.source.length = 11 := by decide
    omega

end Routing

end TypedMirror
