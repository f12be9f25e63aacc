import TypedMirror.Proofs.Deflation

/-!
# Encoded templates

A template is put together from texts, each escaped, and markers between them.  Expanding it asks
for these markers and no others but escapes, even where brackets of a text stand next to those of a
marker, and puts the answers between the texts that were escaped.

The resolver may keep a state, so that its answer to a marker can depend on what it was asked before.
The run of such a resolver records each question and its answer.

* `Template.encode` — the template of texts and markers;
* `Template.expandFrom` — expanding with a resolver that keeps a state;
* `Template.expandFrom_encode` — what is asked, and what comes out;
* `Template.expand_encode` — the texts and the answers, as they were put together.
-/

namespace TypedMirror.Template

/-! ## Resolvers that keep a state -/

section Asking

variable {σ : Type}

/-- What comes of expanding: the text, the questions with their answers, and the last state. -/
structure Expansion (σ : Type) where
  text : Text
  calls : List (Marker × Option Text)
  state : σ

/-- The resolver is asked for the markers among the segments, one after the other. -/
def expandFrom (ask : σ → Marker → Option Text × σ) (s : σ) : List Segment → Expansion σ
  | [] => ⟨[], [], s⟩
  | .char c :: ss =>
    let r := expandFrom ask s ss
    { r with text := c :: r.text }
  | .marker m :: ss =>
    let r := expandFrom ask (ask s m).2 ss
    { r with text := (ask s m).1.getD m.write ++ r.text, calls := (m, (ask s m).1) :: r.calls }

/-- The template expanded by a resolver that starts in some state. -/
def expandAsking (ask : σ → Marker → Option Text × σ) (s : σ) (t : Text) : Expansion σ :=
  expandFrom ask s (segments t)

variable {ask : σ → Marker → Option Text × σ} {s s' s'' : σ} {ss us : List Segment}
  {text text' : Text} {calls calls' : List (Marker × Option Text)}

/-- A resolver without a state is asked as the one that templates are expanded with. -/
theorem text_expandAsking (resolve : Marker → Option Text) (s : σ) (t : Text) :
    (expandAsking (fun s m => (resolve m, s)) s t).text = expand resolve t := by
  rw [expandAsking, expand]
  induction segments t with
  | nil => rfl
  | cons x ss ih =>
    rw [List.flatMap_cons, ← ih]
    cases x <;> rfl

theorem expandFrom_append (h : expandFrom ask s ss = ⟨text, calls, s'⟩)
    (h' : expandFrom ask s' us = ⟨text', calls', s''⟩) :
    expandFrom ask s (ss ++ us) = ⟨text ++ text', calls ++ calls', s''⟩ := by
  induction ss generalizing s text calls with
  | nil =>
    cases h
    exact h'
  | cons x ss ih =>
    cases x with
    | char c =>
      cases h
      rw [List.cons_append, expandFrom, ih rfl]
      rfl
    | marker m =>
      cases h
      rw [List.cons_append, expandFrom, ih rfl]
      simp only [List.append_assoc, List.cons_append]

/-- A marker is asked for before those behind it. -/
theorem expandFrom_marker {m : Marker} (h : expandFrom ask (ask s m).2 ss = ⟨text, calls, s'⟩) :
    expandFrom ask s (.marker m :: ss) =
      ⟨(ask s m).1.getD m.write ++ text, (m, (ask s m).1) :: calls, s'⟩ := by
  rw [expandFrom, h]

end Asking

/-! ## Texts and markers -/

/-- The template of a text and of markers with texts behind them, every text escaped. -/
def encode (first : Text) (rest : List (Marker × Text)) : Text :=
  escape first ++ rest.flatMap fun p => p.1.write ++ escape p.2

/-- The segments of a template that is put together. -/
def encodeSegments (first : Text) (rest : List (Marker × Text)) : List Segment :=
  escapeSegments first ++ rest.flatMap fun p => .marker p.1 :: escapeSegments p.2

/-- The text with answers in place of the markers, a marker without an answer as it is written. -/
def interleave (first : Text) (rest : List (Marker × Text)) (answers : List (Option Text)) : Text :=
  first ++ (rest.zip answers).flatMap fun p => p.2.getD p.1.1.write ++ p.1.2

section Encode

variable {first text : Text} {m : Marker} {rest : List (Marker × Text)}

theorem encodeSegments_cons : encodeSegments first ((m, text) :: rest) =
    escapeSegments first ++ .marker m :: encodeSegments text rest := by
  simp [encodeSegments]

theorem text_encodeSegments (first : Text) (rest : List (Marker × Text)) :
    (encodeSegments first rest).flatMap Segment.text = encode first rest := by
  rw [encodeSegments, encode, List.flatMap_append, text_escapeSegments, List.flatMap_assoc]
  simp only [List.flatMap_cons, text_escapeSegments]
  rfl

/-- No bracket of a text is taken for one of a marker: at the end of the text before a marker it is
the first of three. -/
theorem readable_encodeSegments (hrest : ∀ p ∈ rest, p.1.Plain) :
    Readable (encodeSegments first rest) := by
  induction rest generalizing first with
  | nil => exact readable_escapeSegments nofun trivial
  | cons p rest ih =>
    obtain ⟨hp, hrest⟩ := List.forall_mem_cons.1 hrest
    rw [encodeSegments_cons]
    exact readable_escapeSegments nofun ⟨hp, ih hrest⟩

theorem segments_encode (first : Text) (hrest : ∀ p ∈ rest, p.1.Plain) :
    segments (encode first rest) = encodeSegments first rest := by
  rw [← text_encodeSegments, segments_flatMap (readable_encodeSegments hrest)]

end Encode

/-! ## What a resolver is asked -/

section Answers

variable {σ : Type} {ask : σ → Marker → Option Text × σ}

/-- The answers to the questions that are not about escapes. -/
def answersOf (calls : List (Marker × Option Text)) : List (Marker × Option Text) :=
  calls.filter fun p => p.1.kind ≠ .escape

theorem expandFrom_escape (hask : ∀ s m, m.kind = .escape → (ask s m).1 = some Marker.opening)
    (s : σ) (t : Text) : ∃ calls s', expandFrom ask s (escapeSegments t) = ⟨t, calls, s'⟩ ∧
      answersOf calls = [] := by
  fun_induction escapeSegments t generalizing s with
  | case1 r ih =>
    obtain ⟨calls, s', hr, hcalls⟩ := ih (ask s ⟨.escape, []⟩).2
    refine ⟨_, s', by rw [expandFrom_marker hr, hask s _ rfl]; rfl, ?_⟩
    rw [answersOf, List.filter_cons_of_neg (by simp)]
    exact hcalls
  | case2 c r _ ih =>
    obtain ⟨calls, s', hr, hcalls⟩ := ih s
    refine ⟨calls, s', ?_, hcalls⟩
    rw [expandFrom, hr]
  | case3 => exact ⟨[], s, rfl, rfl⟩

theorem expandFrom_encode (hask : ∀ s m, m.kind = .escape → (ask s m).1 = some Marker.opening)
    (first : Text) {rest : List (Marker × Text)} (hrest : ∀ p ∈ rest, p.1.kind ≠ .escape) (s : σ) :
    ∃ calls s' answers, expandFrom ask s (encodeSegments first rest) =
        ⟨interleave first rest answers, calls, s'⟩ ∧
      answersOf calls = (rest.map Prod.fst).zip answers ∧ answers.length = rest.length := by
  induction rest generalizing first s with
  | nil =>
    obtain ⟨calls, s', hfirst, hcalls⟩ := expandFrom_escape hask s first
    refine ⟨calls, s', [], ?_, hcalls, rfl⟩
    simpa [encodeSegments, interleave] using hfirst
  | cons p rest ih =>
    obtain ⟨m, text⟩ := p
    obtain ⟨hm, hrest⟩ := List.forall_mem_cons.1 hrest
    obtain ⟨calls, s₁, hfirst, hcalls⟩ := expandFrom_escape hask s first
    obtain ⟨calls', s₂, answers, htext, hcalls', hlength⟩ := ih text hrest (ask s₁ m).2
    refine ⟨calls ++ (m, (ask s₁ m).1) :: calls', s₂, (ask s₁ m).1 :: answers, ?_, ?_,
      congrArg (· + 1) hlength⟩
    · rw [encodeSegments_cons, expandFrom_append hfirst (expandFrom_marker htext)]
      simp [interleave]
    · rw [answersOf, List.filter_append, List.filter_cons_of_pos (by simpa using hm)]
      change answersOf calls ++ _ :: answersOf calls' = _
      rw [hcalls, hcalls']
      rfl

end Answers

/-- Expanding a template that is put together gives the texts and, between them, what the resolver
answers; a marker that it declines stays as it is written.  A resolver that keeps a state is asked
for the markers in their order, and otherwise only for escapes.  Where every marker is declined, a
template of any form stays as it is. -/
theorem expand_encode (first : Text) (rest : List (Marker × Text))
    (hrest : ∀ p ∈ rest, p.1.kind ≠ .escape ∧ p.1.Plain) :
    (∀ resolve : Marker → Option Text,
      (∀ m, m.kind = .escape → resolve m = some Marker.opening) →
      expand resolve (encode first rest) =
        first ++ rest.flatMap fun p => (resolve p.1).getD p.1.write ++ p.2) ∧
    (∀ (σ : Type) (ask : σ → Marker → Option Text × σ) (s : σ),
      (∀ s m, m.kind = .escape → (ask s m).1 = some Marker.opening) →
      ∃ answers : List (Option Text), answers.length = rest.length ∧
        (expandAsking ask s (encode first rest)).text = interleave first rest answers ∧
        (expandAsking ask s (encode first rest)).calls.filter (·.1.kind ≠ .escape) =
          (rest.map Prod.fst).zip answers) ∧
    (∀ (σ : Type) (resolve : Marker → Option Text) (s : σ) (t : Text),
      (expandAsking (fun s m => (resolve m, s)) s t).text = expand resolve t) ∧
    ∀ t, expand (fun _ => none) t = t := by
  have hkind : ∀ p ∈ rest, p.1.kind ≠ .escape := fun p hp => (hrest p hp).1
  have hsegments := segments_encode first fun p hp => (hrest p hp).2
  refine ⟨?_, ?_, fun _ => text_expandAsking, expand_declined⟩
  · intro resolve hresolve
    have hescape := hresolve ⟨.escape, []⟩ rfl
    rw [expand, hsegments, encodeSegments, List.flatMap_append, expand_escapeSegments hescape,
      List.flatMap_assoc]
    simp only [List.flatMap_cons, expand_escapeSegments hescape]
    rfl
  · intro σ ask s hask
    obtain ⟨calls, s', answers, hrun, hcalls, hlength⟩ :=
      expandFrom_encode hask first hkind s
    rw [expandAsking, hsegments, hrun]
    exact ⟨answers, hlength, rfl, hcalls⟩

namespace Sample

/-- Answers to escapes, and to tables with the text of another marker. -/
def resolve (m : Marker) : Option Text :=
  match m.kind with
  | .escape => some Marker.opening
  | .table => some "[[literal:1]]".toList
  | _ => none

end Sample

/-- Brackets on both sides of a marker, and an answer that looks like one. -/
theorem expand_encode_sample :
    let rest : List (Marker × Text) :=
      [(⟨.table, "a:]b".toList⟩, "] [[[".toList), (⟨.column, "c".toList⟩, [])]
    encode "[[ [".toList rest =
      "[[escape:]] [[[table:a:]b]]] [[escape:]][[[column:c]]".toList ∧
    expand Sample.resolve (encode "[[ [".toList rest) =
      "[[ [[[literal:1]]] [[[[[column:c]]".toList := by
  intro rest
  have hrest : ∀ p ∈ rest, p.1.kind ≠ .escape ∧ p.1.Plain := by
    refine List.forall_mem_cons.2 ⟨?_, List.forall_mem_singleton.2 ?_⟩
    · exact ⟨by decide, by decide, by decide, by decide⟩
    · exact ⟨by decide, by decide, by decide, by decide⟩
  refine ⟨by decide +kernel, ?_⟩
  rw [(expand_encode "[[ [".toList rest hrest).1 Sample.resolve (by rintro ⟨k, n⟩ rfl; rfl)]
  decide +kernel

end TypedMirror.Template
