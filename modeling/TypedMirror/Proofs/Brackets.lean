import TypedMirror.Proofs.Segments

/-!
# Brackets in the names of markers

A marker with closing brackets in its name is not read back.  Its name ends at the first of them, and
the rest of it is left as text; or the opening brackets of another marker inside the name keep it from
being a marker at all.

* `plain_of_noClosing` — without closing brackets the name is plain;
* `segments_write_cut`, `segments_write_kept` — what is read otherwise;
* `exists_reading` — it never comes to the text that the marker was written for.
-/

namespace TypedMirror

/-- The text holds no bracket, or it is that of a quoted name. -/
def Text.Sealed (x : Text) : Prop :=
  (∀ d ∈ x, d ≠ '[' ∧ d ≠ ']') ∨ x.getLast? = some '\x60'

namespace Template

variable {x a b t : Text} {ss : List Segment} {m : Marker}

/-! ## Names without closing brackets -/

theorem text_map_char (x : Text) : (x.map Segment.char).flatMap Segment.text = x := by
  induction x with
  | nil => rfl
  | cons c x ih =>
    rw [List.map_cons, List.flatMap_cons, ih]
    rfl

theorem expand_map_char (resolve : Marker → Option Text) (x : Text) :
    (x.map Segment.char).flatMap (Segment.expand resolve) = x := by
  induction x with
  | nil => rfl
  | cons c x ih =>
    rw [List.map_cons, List.flatMap_cons, ih]
    rfl

theorem eq_map_char (hss : ss.flatMap Segment.text = x) (h : Text.has x Marker.closing = false) :
    ss = x.map Segment.char := by
  induction ss generalizing x with
  | nil =>
    cases hss
    rfl
  | cons s ss ih =>
    cases s with
    | char c =>
      subst hss
      have := ih rfl (Text.has_cons.1 h).2
      rw [List.flatMap_cons, Segment.text, List.singleton_append, List.map_cons, ← this]
    | marker m =>
      subst hss
      have hhas : Text.has ((Segment.marker m :: ss).flatMap Segment.text) Marker.closing = true :=
        Text.has_of_append (a := Marker.opening ++ m.kind.word ++ ':' :: m.name)
          (b := ss.flatMap Segment.text) (by simp [Segment.text, Marker.write])
      rw [h] at hhas
      cases hhas

theorem noOpening_of_readable (h : Readable (x.map Segment.char)) :
    Text.has x Marker.opening = false := by
  induction x with
  | nil => decide
  | cons c x ih =>
    refine Text.has_cons.2 ⟨?_, ih h.2⟩
    cases hafter : Text.after? Marker.opening (c :: x) with
    | none => rfl
    | some rest =>
      have hx : c :: x = '[' :: '[' :: rest := Text.after?_eq_some.1 hafter
      obtain ⟨rfl, rfl⟩ := List.cons.inj hx
      exact absurd rfl (h.1 rfl)

theorem last_of_sealed (h : x.Sealed) : x.getLast? ≠ some ']' := by
  intro hlast
  rcases h with h | h
  · exact (h ']' (List.mem_of_getLast? hlast)).2 rfl
  · rw [hlast] at h
    exact absurd (Option.some.inj h) (by decide)

theorem plain_of_noClosing (hread : Readable ss) (hss : ss.flatMap Segment.text = m.name)
    (hm : m.name.Sealed) (h : Text.has m.name Marker.closing = false) : m.Plain := by
  rw [eq_map_char hss h] at hread
  exact ⟨noOpening_of_readable hread, h, last_of_sealed hm⟩

/-! ## Names with closing brackets -/

/-- Text without brackets is made of segments that are characters. -/
theorem eq_append_of_noBracket (hx : ∀ c ∈ x, c ≠ '[') (hss : ss.flatMap Segment.text = x ++ b) :
    ∃ vs, ss = x.map Segment.char ++ vs ∧ vs.flatMap Segment.text = b := by
  induction x generalizing ss with
  | nil => exact ⟨ss, rfl, hss⟩
  | cons c x ih =>
    cases ss with
    | nil => cases hss
    | cons s ss =>
      cases s with
      | char d =>
        obtain ⟨rfl, hrest⟩ := List.cons.inj hss
        obtain ⟨vs, rfl, hvs⟩ := ih (fun e he => hx e (List.mem_cons_of_mem _ he)) hrest
        exact ⟨vs, rfl, hvs⟩
      | marker m =>
        have hc : '[' = c := (List.cons.inj hss).1
        exact absurd hc.symm (hx c List.mem_cons_self)

/-- Before the first closing brackets there are characters only, if no marker starts there. -/
theorem exists_of_closing (hss : ss.flatMap Segment.text = a ++ Marker.closing ++ b)
    (h : Text.has a Marker.opening = false) :
    ∃ us, ss = a.map Segment.char ++ Marker.closing.map Segment.char ++ us ∧
      us.flatMap Segment.text = b := by
  induction a generalizing ss with
  | nil =>
    obtain ⟨us, rfl, hus⟩ :=
      eq_append_of_noBracket (x := Marker.closing) (by simp [Marker.closing]) hss
    exact ⟨us, rfl, hus⟩
  | cons c a ih =>
    cases ss with
    | nil => cases hss
    | cons s ss =>
      cases s with
      | char d =>
        obtain ⟨rfl, hrest⟩ := List.cons.inj hss
        obtain ⟨us, rfl, hus⟩ := ih hrest (Text.has_cons.1 h).2
        exact ⟨us, rfl, hus⟩
      | marker m =>
        exfalso
        have hopening := (Text.has_cons.1 h).1
        obtain ⟨rfl, hrest⟩ := List.cons.inj hss
        cases a with
        | nil => cases (List.cons.inj hrest).1
        | cons d a =>
          obtain ⟨rfl, -⟩ := List.cons.inj hrest
          cases hopening

/-- What is left of a quoted name behind its first closing brackets ends in a backtick. -/
theorem exists_eq_append_backtick (hss : ss.flatMap Segment.text = x)
    (hx : x.getLast? = some '\x60') : ∃ us, ss = us ++ [.char '\x60'] := by
  rcases List.eq_nil_or_concat ss with rfl | ⟨us, s, rfl⟩
  · subst hss
    cases hx
  · cases s with
    | char c =>
      subst hss
      simp [Segment.text] at hx
      exact ⟨us, by rw [hx, List.concat_eq_append]⟩
    | marker m =>
      have hlast : x.getLast? = some ']' := by
        rw [← hss, List.concat_eq_append, List.flatMap_append, List.flatMap_singleton, Segment.text,
          Marker.write, List.getLast?_append, List.getLast?_append]
        rfl
      rw [hlast] at hx
      exact absurd (Option.some.inj hx) (by decide)

section Column

variable {raw : Text} {resolve : Marker → Option Text}

/-- The column marker of a text. -/
def column (raw : Text) : Marker := ⟨.column, raw⟩

theorem cut_column (hcut : Text.cut Marker.closing raw = some (a, b)) (t : Text) :
    Text.cut Marker.closing (Marker.Kind.column.word ++ ':' :: (raw ++ Marker.closing ++ t)) =
      some (Marker.Kind.column.word ++ ':' :: a, b ++ (Marker.closing ++ t)) := by
  have h := Marker.cut_write (m := column raw) (r := raw ++ Marker.closing ++ t)
  rw [List.append_assoc, Text.cut_append_right hcut] at h
  rw [List.append_assoc]
  exact h

theorem write_column (raw t : Text) : (column raw).write ++ t =
    '[' :: '[' :: (Marker.Kind.column.word ++ ':' :: (raw ++ Marker.closing ++ t)) := by
  simp [Marker.write, Marker.opening, column]

theorem segments_closing (t : Text) :
    segments (Marker.closing ++ t) = Marker.closing.map .char ++ segments t := by
  have hread : Readable (Marker.closing.map Segment.char) := by simp [Readable, Marker.closing]
  have := segments_append (t := t) hread fun h => by cases h
  rwa [text_map_char] at this

/-- The marker ends at the first closing brackets of its name. -/
theorem segments_write_cut (hread : Readable ss) (hss : ss.flatMap Segment.text = b)
    (hcut : Text.cut Marker.closing raw = some (a, b)) (ha : Text.has a Marker.opening = false)
    (t : Text) : segments ((column raw).write ++ t) =
      .marker (column a) :: ss ++ Marker.closing.map .char ++ segments t := by
  have hmarker : Marker.read? ((column raw).write ++ t) =
      some (column a, b ++ (Marker.closing ++ t)) := by
    rw [write_column, Marker.read?_of_cut (cut_column hcut t) rfl, ha]
    rfl
  have hrest : segments (b ++ (Marker.closing ++ t)) = ss ++ segments (Marker.closing ++ t) := by
    rw [← hss]
    exact segments_append hread fun _ h => by cases h
  rw [segments_of_read? hmarker, hrest, segments_closing]
  simp

/-- Behind another opening the marker is none, and all of it stays text. -/
theorem segments_write_kept (hread : Readable ss) (hss : ss.flatMap Segment.text = raw)
    (hcut : Text.cut Marker.closing raw = some (a, b)) (ha : Text.has a Marker.opening = true)
    (t : Text) : segments ((column raw).write ++ t) =
      "[[column:".toList.map .char ++ ss ++ Marker.closing.map .char ++ segments t := by
  have hnone : Marker.read? ((column raw).write ++ t) = none := by
    rw [write_column, Marker.read?_of_cut (cut_column hcut t) rfl, ha]
    rfl
  have hhead : Readable ("[column:".toList.map Segment.char) := by
    simp [Readable]
  have hafter : segments ("[column:".toList ++ (raw ++ (Marker.closing ++ t))) =
      "[column:".toList.map .char ++ segments (raw ++ (Marker.closing ++ t)) := by
    have := segments_append (t := raw ++ (Marker.closing ++ t)) hhead fun h => by cases h
    rwa [text_map_char] at this
  have hraw : segments (raw ++ (Marker.closing ++ t)) = ss ++ segments (Marker.closing ++ t) := by
    rw [← hss]
    exact segments_append hread fun _ h => by cases h
  have hwrite : (column raw).write ++ t =
      '[' :: ("[column:".toList ++ (raw ++ (Marker.closing ++ t))) := by
    rw [write_column, List.append_assoc]
    rfl
  rw [hwrite] at hnone ⊢
  rw [segments_cons hnone, hafter, hraw, segments_closing]
  simp

/-- A column with closing brackets is never put back as it was: what comes out is another text, and
no shorter. -/
theorem exists_reading (hread : Readable ss) (hss : ss.flatMap Segment.text = raw)
    (hraw : raw.Sealed) (h : Text.has raw Marker.closing = true) :
    ∃ us, (∀ t, segments ((column raw).write ++ t) = us ++ segments t) ∧
      ∀ resolve : Marker → Option Text, (∀ name, resolve (column name) = some name) →
        (ss.flatMap (Segment.expand resolve)).length ≤
          (us.flatMap (Segment.expand resolve)).length ∧
        us.flatMap (Segment.expand resolve) ≠ ss.flatMap (Segment.expand resolve) := by
  obtain ⟨⟨a, b⟩, hcut⟩ := Option.isSome_iff_exists.1 h
  have hsplit := Text.cut_eq_some hcut
  by_cases ha : Text.has a Marker.opening = true
  · refine ⟨_, segments_write_kept hread hss hcut ha, ?_⟩
    intro resolve _
    have hlength : (("[[column:".toList.map Segment.char ++ ss ++
        Marker.closing.map Segment.char).flatMap (Segment.expand resolve)).length =
          (ss.flatMap (Segment.expand resolve)).length + 11 := by
      rw [List.flatMap_append, List.flatMap_append, expand_map_char, expand_map_char]
      simp [Marker.closing]
    refine ⟨by omega, ?_⟩
    intro heq
    rw [heq] at hlength
    omega
  · rw [Bool.not_eq_true] at ha
    obtain ⟨vs, rfl, hvs⟩ := exists_of_closing (hss.trans hsplit) ha
    have hlast : raw.getLast? = some '\x60' := by
      rcases hraw with hraw | hraw
      · have hmem : ']' ∈ raw := by
          rw [hsplit]
          simp [Marker.closing]
        exact absurd rfl (hraw ']' hmem).2
      · exact hraw
    have hb : b.getLast? = some '\x60' := by
      rw [hsplit, List.getLast?_append] at hlast
      cases hb : b.getLast? with
      | none =>
        rw [hb, List.getLast?_append] at hlast
        exact absurd (Option.some.inj hlast) (by decide)
      | some c =>
        rw [hb] at hlast
        exact hlast
    obtain ⟨ws, rfl⟩ := exists_eq_append_backtick hvs hb
    refine ⟨_, segments_write_cut hread.right hvs hcut ha, ?_⟩
    intro resolve hresolve
    have hmarker : Segment.expand resolve (.marker (column a)) = a := by
      rw [Segment.expand, hresolve]
      rfl
    simp only [List.flatMap_append, List.flatMap_cons, expand_map_char, hmarker]
    refine ⟨by simp; omega, ?_⟩
    intro heq
    -- one of them ends in a bracket, the other in a backtick
    have hlast := congrArg List.getLast? heq
    simp only [List.getLast?_append] at hlast
    exact absurd (Option.some.inj hlast) (by decide)

end Column

end Template

end TypedMirror
