import TypedMirror.Query.Token.Lexer

/-!
# Tokens tile the text

The tokens of a text stand one after the other with nothing but white space between them.

* `fits_of_extent` — what the kind of a token says of its characters and of the one after them;
* `tiles_read` — the tokens of a text tile it;
* `Tiles.of_append` — so do the tokens from any place on;
* `Tiles.exists_token` — each token has its text at its place.
-/

namespace TypedMirror.Token

/-- The token is one of its kind, in front of the text `rest`. -/
structure Fits (t : Token) (rest : Text) : Prop where
  word : t.kind = .word → t.text ≠ [] ∧ (∀ c ∈ t.text, Text.isWordChar c = true) ∧
    ∀ c ∈ rest.head?, Text.isWordChar c = false
  quotedName : t.kind = .quotedName → ∃ name, t.text = backtick :: name ++ [backtick]
  operator : t.kind = .operator → t.text ∈ operators
  punct : t.kind = .punct → ∃ c ∈ [',', '.', '(', ')', ';', '*'], t.text = [c]

section Extent

variable {start n : Nat} {c : Char} {r : Text}

theorem fits_of_kind {k : Kind} {rest : Text}
    (h : k ≠ .word ∧ k ≠ .quotedName ∧ k ≠ .operator ∧ k ≠ .punct) (text : Text) :
    Fits ⟨k, text, start⟩ rest :=
  ⟨fun hk => absurd hk h.1, fun hk => absurd hk h.2.1, fun hk => absurd hk h.2.2.1,
    fun hk => absurd hk h.2.2.2⟩

theorem fits_word (hc : Text.isWordChar c = true) :
    Fits ⟨.word, c :: r.take (r.takeWhile Text.isWordChar).length, start⟩
      (r.drop (r.takeWhile Text.isWordChar).length) := by
  have hsplit := List.takeWhile_append_dropWhile (p := Text.isWordChar) (l := r)
  have htake : r.take (r.takeWhile Text.isWordChar).length = r.takeWhile Text.isWordChar :=
    (List.prefix_iff_eq_take.1 (List.takeWhile_prefix _)).symm
  have hdrop : r.drop (r.takeWhile Text.isWordChar).length = r.dropWhile Text.isWordChar := by
    have := congrArg (List.drop (r.takeWhile Text.isWordChar).length) hsplit
    rw [List.drop_left' rfl] at this
    exact this.symm
  rw [htake, hdrop]
  refine ⟨fun _ => ⟨List.cons_ne_nil _ _, ?_, ?_⟩, by rintro ⟨⟩, by rintro ⟨⟩, by rintro ⟨⟩⟩
  · intro d hd
    rcases List.mem_cons.1 hd with rfl | hd
    · exact hc
    · exact List.all_eq_true.1 List.all_takeWhile d hd
  · intro d hd
    have := List.head?_dropWhile_not Text.isWordChar r
    rw [Option.mem_def.1 hd] at this
    simpa using this

theorem fits_quotedName {rest : Text} (h : backtickExtent r = some n) :
    Fits ⟨.quotedName, backtick :: r.take n, start⟩ rest := by
  obtain ⟨⟨name, after⟩, hcut, rfl⟩ := Option.map_eq_some_iff.1 h
  refine ⟨by rintro ⟨⟩, fun _ => ⟨name, ?_⟩, by rintro ⟨⟩, by rintro ⟨⟩⟩
  have hr := Text.cut_eq_some hcut
  have htake : r.take (name.length + 1) = name ++ [backtick] := by
    rw [hr, List.take_left' (by simp)]
  rw [htake]
  rfl

theorem fits_operator {op rest : Text}
    (h : operators.find? (fun op => (Text.after? op (c :: r)).isSome) = some op) :
    Fits ⟨.operator, c :: r.take (op.length - 1), start⟩ rest := by
  have hmem := List.mem_of_find?_eq_some h
  obtain ⟨after, hafter⟩ : ∃ after, Text.after? op (c :: r) = some after := by
    have := List.find?_some h
    exact Option.isSome_iff_exists.1 this
  have hr := Text.after?_eq_some.1 hafter
  have hne : op ≠ [] := by
    rintro rfl
    revert hmem
    decide
  refine ⟨by rintro ⟨⟩, by rintro ⟨⟩, fun _ => ?_, by rintro ⟨⟩⟩
  obtain ⟨d, op, rfl⟩ := List.exists_cons_of_ne_nil hne
  obtain ⟨rfl, rfl⟩ := List.cons.inj hr
  have htake : (op ++ after).take ((c :: op).length - 1) = op := List.take_left' rfl
  show c :: (op ++ after).take ((c :: op).length - 1) ∈ operators
  rw [htake]
  exact hmem

theorem fits_of_extent {k : Kind} (h : extent c r = (k, n)) :
    Fits ⟨k, c :: r.take n, start⟩ (r.drop n) := by
  unfold extent at h
  split at h
  · cases h
    exact fits_of_kind (by decide) _
  split at h
  · rename_i hc
    dsimp only at h
    split at h
    · cases h
      exact fits_of_kind (by decide) _
    · cases h
      exact fits_word hc
  split at h
  · rename_i hc
    subst hc
    split at h
    · rename_i hn
      cases h
      exact fits_quotedName hn
    · cases h
      exact fits_of_kind (by decide) _
  split at h
  · split at h
    · cases h
      exact fits_of_kind (by decide) _
    · cases h
      exact fits_of_kind (by decide) _
  split at h
  · rename_i hop
    cases h
    exact fits_operator hop
  · split at h
    · rename_i hpunct
      cases h
      refine ⟨by rintro ⟨⟩, by rintro ⟨⟩, by rintro ⟨⟩, fun _ => ⟨c, ?_, rfl⟩⟩
      exact List.contains_iff_mem.1 hpunct
    · cases h
      exact fits_of_kind (by decide) _

end Extent

/-- The tokens of a text at position `start`, and white space before, between and after them. -/
inductive Tiles : Nat → Text → List Token → Prop
  | blank {start : Nat} {text : Text} (h : ∀ c ∈ text, Text.isAsciiBlank c = true) :
    Tiles start text []
  | token {start : Nat} {blanks rest : Text} {t : Token} {ts : List Token}
    (hb : ∀ c ∈ blanks, Text.isAsciiBlank c = true) (hs : t.start = start + blanks.length)
    (hf : t.Fits rest) (h : Tiles t.stop rest ts) : Tiles start (blanks ++ t.text ++ rest) (t :: ts)

section Tiles

variable {start : Nat} {text : Text} {t : Token} {ts us : List Token}

theorem Tiles.cons_blank {c : Char} (hc : Text.isAsciiBlank c = true)
    (h : Tiles (start + 1) text ts) : Tiles start (c :: text) ts := by
  have hall : ∀ {blanks : Text}, (∀ d ∈ blanks, Text.isAsciiBlank d = true) →
      ∀ d ∈ c :: blanks, Text.isAsciiBlank d = true := by
    intro blanks hb d hd
    rcases List.mem_cons.1 hd with rfl | hd
    · exact hc
    · exact hb d hd
  cases h with
  | blank h => exact .blank (hall h)
  | @token _ blanks rest t ts hb hs hf h =>
    have hs' : t.start = start + (c :: blanks).length := by
      rw [hs, List.length_cons]
      omega
    exact .token (hall hb) hs' hf h

theorem tiles_readFrom (start : Nat) (text : Text) : Tiles start text (readFrom start text) := by
  fun_induction readFrom start text with
  | case1 => exact .blank (by simp)
  | case2 start c r hc ih => exact ih.cons_blank hc
  | case3 start c r hc e text ih =>
    have htext : c :: r = [] ++ text ++ r.drop e.2 := by
      show c :: r = c :: (r.take e.2 ++ r.drop e.2)
      rw [List.take_append_drop]
    rw [htext]
    exact Tiles.token (t := ⟨e.1, text, start⟩) (by simp) (by simp) (fits_of_extent rfl) ih

/-- The tokens of a text tile it. -/
theorem tiles_read (text : Text) : Tiles 0 text (read text) := tiles_readFrom 0 text

/-- The tokens from some place on tile what is left of the text. -/
theorem Tiles.of_append (h : Tiles start text (ts ++ us)) :
    ∃ a b, text = a ++ b ∧ Tiles (start + a.length) b us := by
  induction ts generalizing start text with
  | nil => exact ⟨[], text, rfl, h⟩
  | cons t ts ih =>
    cases h with
    | @token _ blanks rest _ _ hb hs hf h =>
      obtain ⟨a, b, rfl, hb'⟩ := ih h
      refine ⟨blanks ++ t.text ++ a, b, by simp, ?_⟩
      have hstart : start + (blanks ++ t.text ++ a).length = t.stop + a.length := by
        unfold stop
        rw [hs]
        simp
        omega
      rw [hstart]
      exact hb'

/-- A token has its text at its place. -/
theorem Tiles.exists_token (h : Tiles start text (ts ++ t :: us)) :
    ∃ a rest, text = a ++ (t.text ++ rest) ∧ t.start = start + a.length ∧ t.Fits rest ∧
      Tiles t.stop rest us := by
  obtain ⟨a, b, rfl, hb⟩ := h.of_append
  cases hb with
  | @token _ blanks rest _ _ _ hs hf h =>
    refine ⟨a ++ blanks, rest, by simp, ?_, hf, h⟩
    rw [hs, List.length_append, Nat.add_assoc]

end Tiles

end TypedMirror.Token
