import TypedMirror.Proofs.Contents

/-!
# Quoted patterns

A pattern is escaped before it is quoted, so its quotes enclose it whatever it says, and it can be
read back.  A text that quotes patterns, and holds no other quotes, is therefore deflated to a text
in which nothing of them is left.

* `Quoted.read_escape`, `Quoted.close_escape` — what is escaped is enclosed and reads back;
* `Quoting` — a text with patterns, and the same text with empty ones;
* `Quoting.split` — how such a text is split.
-/

namespace TypedMirror

namespace Quoted

/-- The text with a backslash before each backslash and each quote. -/
def escape (t : Text) : Text := t.flatMap fun c => if c = '\\' ∨ c = '\'' then ['\\', c] else [c]

/-- The text with `\\` read as a backslash, and `\'` as a quote. -/
def read : Text → Text
  | [] => []
  | '\\' :: '\\' :: r => '\\' :: read r
  | '\\' :: '\'' :: r => '\'' :: read r
  | c :: r => c :: read r

theorem write_eq (t : Text) : write t = '\'' :: escape t ++ ['\''] := rfl

/-- It comes to the same to escape first the backslashes of a text, and then its quotes. -/
theorem escape_eq_escape_quotes (t : Text) : escape t =
    (t.flatMap fun c => if c = '\\' then ['\\', '\\'] else [c]).flatMap fun c =>
      if c = '\'' then ['\\', '\''] else [c] := by
  unfold escape
  rw [List.flatMap_assoc]
  congr 1
  funext c
  by_cases hc : c = '\\'
  · subst hc
    rfl
  · by_cases hc' : c = '\''
    · subst hc'
      rfl
    · simp [hc, hc']

theorem escape_cons_of_ne {c : Char} (h : c ≠ '\\') (h' : c ≠ '\'') (t : Text) :
    escape (c :: t) = c :: escape t := by
  simp [escape, h, h']

theorem read_escape (t : Text) : read (escape t) = t := by
  induction t with
  | nil => rfl
  | cons c t ih =>
    by_cases hc : c = '\\'
    · subst hc
      exact congrArg ('\\' :: ·) ih
    by_cases hc' : c = '\''
    · subst hc'
      exact congrArg ('\'' :: ·) ih
    rw [escape_cons_of_ne hc hc', read, ih]
    · exact fun _ h _ => hc h
    · exact fun _ h _ => hc h

theorem close_escape (t rest : Text) :
    close '\'' (escape t ++ '\'' :: rest) = some (escape t, rest) := by
  induction t with
  | nil => rfl
  | cons c t ih =>
    have hcovered : ∀ c, close '\'' ('\\' :: c :: (escape t ++ '\'' :: rest)) =
        some ('\\' :: c :: escape t, rest) := by
      intro c
      rw [close, ih]
      rfl
    by_cases hc : c = '\\'
    · subst hc
      exact hcovered '\\'
    by_cases hc' : c = '\''
    · subst hc'
      exact hcovered '\''
    rw [escape_cons_of_ne hc hc', List.cons_append, close_cons hc, if_neg hc', ih]
    rfl

end Quoted

/-! ## Text without quotes -/

namespace Text

/-- No quote stands in the text. -/
def Quoteless (t : Text) : Prop := ∀ c ∈ t, Passage.isQuote c = false

instance (t : Text) : Decidable t.Quoteless :=
  decidable_of_iff (t.all fun c => !Passage.isQuote c) (by simp [Quoteless])

variable {t u : Text}

@[simp] theorem quoteless_nil : Quoteless [] := by
  simp [Quoteless]

@[simp] theorem quoteless_cons {c : Char} :
    Quoteless (c :: t) ↔ Passage.isQuote c = false ∧ Quoteless t :=
  List.forall_mem_cons

@[simp] theorem quoteless_append : Quoteless (t ++ u) ↔ Quoteless t ∧ Quoteless u :=
  List.forall_mem_append

theorem Quoteless.append (h : t.Quoteless) (hu : u.Quoteless) : (t ++ u).Quoteless :=
  quoteless_append.2 ⟨h, hu⟩

theorem Quoteless.joinWith {sep : Text} {ts : List Text} (hsep : sep.Quoteless)
    (h : ∀ t ∈ ts, Quoteless t) : Quoteless (Text.joinWith sep ts) := by
  intro c hc
  rcases Text.mem_joinWith hc with hc | ⟨t, ht, hc⟩
  · exact hsep c hc
  · exact h t ht c hc

end Text

/-! ## Text with quoted patterns -/

/-- A text in which patterns are quoted one after the other, and the text that is left if they are
made empty. -/
inductive Quoting : List Text → Text → Text → Prop
  | done {t : Text} (h : t.Quoteless) : Quoting [] t t
  | pattern {t p u u' : Text} {ps : List Text} (h : t.Quoteless) (hu : Quoting ps u u') :
    Quoting (p :: ps) (t ++ (Quoted.write p ++ u)) (t ++ (Quoted.write [] ++ u'))

namespace Quoting

variable {ps qs : List Text} {p t t' u u' : Text}

theorem single (p : Text) : Quoting [p] (Quoted.write p) (Quoted.write []) := by
  simpa using pattern (p := p) Text.quoteless_nil (done Text.quoteless_nil)

theorem behind (h : t.Quoteless) (hu : Quoting ps u u') : Quoting ps (t ++ u) (t ++ u') := by
  cases hu with
  | done hu => exact done (h.append hu)
  | pattern hu hrest => simpa using pattern (h.append hu) hrest

theorem append (h : Quoting ps t t') (hu : Quoting qs u u') :
    Quoting (ps ++ qs) (t ++ u) (t' ++ u') := by
  induction h with
  | done h => exact behind h hu
  | pattern h _ ih => simpa using pattern h ih

theorem ahead (h : Quoting ps t t') (hu : u.Quoteless) : Quoting ps (t ++ u) (t' ++ u) := by
  simpa using h.append (done hu)

/-- The text is split where the patterns stand, and there only.  The passages are those of the other
text but for what they say. -/
theorem split (h : Quoting ps t t') :
    (∀ q ∈ (Passage.split t).1, q.quote = '\'') ∧ (Passage.split t).2.Quoteless ∧
      (Passage.split t).1.map (·.contents) = ps.map Quoted.escape ∧
      ∀ id, Deflated.textFrom id (Passage.split t).1 (Passage.split t).2 =
        Deflated.textFrom id (Passage.split t').1 (Passage.split t').2 := by
  induction h with
  | done h =>
    rw [Passage.split_of_noQuote h]
    exact ⟨by simp, h, rfl, fun _ => rfl⟩
  | @pattern t p u u' ps h hu ih =>
    obtain ⟨hquote, htail, hcontents, htext⟩ := ih
    have hsplit : ∀ p u, Passage.split (t ++ (Quoted.write p ++ u)) =
        (⟨t, '\'', Quoted.escape p⟩ :: (Passage.split u).1, (Passage.split u).2) := by
      intro p u
      have hsound : (⟨t, '\'', Quoted.escape p⟩ : Passage).Sound :=
        ⟨h, rfl, Quoted.close_escape p []⟩
      rw [← Passage.split_append hsound, Passage.text, Quoted.write_eq]
      simp
    rw [hsplit, hsplit]
    refine ⟨List.forall_mem_cons.2 ⟨rfl, hquote⟩, htail, ?_, ?_⟩
    · exact congrArg (Quoted.escape p :: ·) hcontents
    · intro id
      rw [Deflated.textFrom, Deflated.textFrom, htext]

/-- The literals of the text read as the patterns. -/
theorem literals (h : Quoting ps t t') : (Deflated.ofQuery t).literals.map Quoted.read = ps := by
  show ((Passage.split t).1.map (·.contents)).map Quoted.read = ps
  rw [h.split.2.2.1, List.map_map]
  exact List.map_id'' Quoted.read_escape ps

theorem query_eq (h : Quoting ps t t') :
    (Deflated.ofQuery t).query = (Deflated.ofQuery t').query :=
  h.split.2.2.2 1

end Quoting

end TypedMirror
