import TypedMirror.Proofs.Patches
import TypedMirror.Proofs.Placement
import TypedMirror.Proofs.Tiling

/-!
# The places of tables and columns fit

What tells the tokens of a name from those around them also tells their text from the markers of the
deflated query: in front of a name stands white space or the end of another token, and a name holds no
bracket unless backticks enclose it.

* `exists_behind` — the text of a token behind another one;
* `fitted_of_marks` — edits of tokens can be made in the text that the tokens tile.
-/

namespace TypedMirror.Grammar

open Marker (isOwnChar)
open Query (Edit Fitted)
open Token (Tiles Fits backtick)

/-! ## In front of a name -/

theorem isOwnChar_of_isAsciiBlank {c : Char} (h : Text.isAsciiBlank c = true) :
    isOwnChar c = false := by
  unfold Text.isAsciiBlank at h
  simp only [Bool.or_eq_true, beq_iff_eq] at h
  rcases h with (((rfl | rfl) | rfl) | rfl) | rfl <;> decide

theorem isOwnChar_of_mem_operators {op : Text} (h : op ∈ Token.operators) :
    op ≠ [] ∧ ∀ c ∈ op, isOwnChar c = false := by
  have hall : Token.operators.all (fun op => !op.isEmpty && op.all (!isOwnChar ·)) = true := by
    decide
  have hop := List.all_eq_true.1 hall op h
  rw [Bool.and_eq_true] at hop
  refine ⟨by simpa using hop.1, ?_⟩
  intro c hc
  simpa using List.all_eq_true.1 hop.2 c hc

theorem isOwnChar_of_punct {c : Char} (h : c ∈ [',', '.', '(', ')', ';', '*']) :
    isOwnChar c = false := by
  have hall : [',', '.', '(', ')', ';', '*'].all (!isOwnChar ·) = true := by decide
  simpa using List.all_eq_true.1 hall c h

theorem ne_of_isWordChar {c : Char} (h : Text.isWordChar c = true) : c ≠ '[' ∧ c ≠ ']' := by
  constructor
  · rintro rfl
    revert h
    decide
  · rintro rfl
    revert h
    decide

theorem ne_of_isOwnChar {c : Char} (h : isOwnChar c = false) : c ≠ '[' ∧ c ≠ ']' := by
  constructor
  · rintro rfl
    revert h
    decide
  · rintro rfl
    revert h
    decide

theorem ne_of_isAsciiBlank {c : Char} (h : Text.isAsciiBlank c = true) : c ≠ '[' ∧ c ≠ ']' :=
  ne_of_isOwnChar (isOwnChar_of_isAsciiBlank h)

/-- The character in front of a name belongs to no marker, unless it is that of a word and the name
does not start with one. -/
theorem exists_before {p : Token} {blanks rest : Text} (hp : Introduces p)
    (hf : p.Fits (blanks ++ rest)) (hb : ∀ c ∈ blanks, Text.isAsciiBlank c = true) :
    ∃ a c, p.text ++ blanks = a ++ [c] ∧ c ≠ '[' ∧
      (isOwnChar c = false ∨ ∀ d ∈ rest.head?, Text.isWordChar d = false) := by
  rcases List.eq_nil_or_concat blanks with rfl | ⟨bs, c, rfl⟩
  · -- the last character of the token in front
    have hlast : p.text ≠ [] ∧ ∀ c ∈ p.text, c ≠ '[' ∧
        (isOwnChar c = false ∨ ∀ d ∈ rest.head?, Text.isWordChar d = false) := by
      rcases hp with hkind | hkind | hkind
      · obtain ⟨hne, hall, hnext⟩ := hf.word hkind
        exact ⟨hne, fun c hc => ⟨(ne_of_isWordChar (hall c hc)).1, .inr hnext⟩⟩
      · obtain ⟨hne, hall⟩ := isOwnChar_of_mem_operators (hf.operator hkind)
        exact ⟨hne, fun c hc => ⟨(ne_of_isOwnChar (hall c hc)).1, .inl (hall c hc)⟩⟩
      · obtain ⟨c, hc, htext⟩ := hf.punct hkind
        have hown := isOwnChar_of_punct hc
        rw [htext]
        refine ⟨List.cons_ne_nil _ _, ?_⟩
        intro d hd
        rw [List.mem_singleton.1 hd]
        exact ⟨(ne_of_isOwnChar hown).1, .inl hown⟩
    obtain ⟨hne, hall⟩ := hlast
    rcases List.eq_nil_or_concat p.text with hnil | ⟨a, c, htext⟩
    · exact absurd hnil hne
    · rw [List.concat_eq_append] at htext
      rw [htext] at hall
      exact ⟨a, c, by rw [htext, List.append_nil], hall c (by simp)⟩
  · rw [List.concat_eq_append] at hb ⊢
    have hown := isOwnChar_of_isAsciiBlank (hb c (by simp))
    exact ⟨p.text ++ bs, c, by rw [List.append_assoc], (ne_of_isOwnChar hown).1, .inl hown⟩

variable {start : Nat} {text : Text} {p t : Token} {ts : List Token}

/-- The text of a token behind one that introduces it. -/
theorem exists_behind (h : Tiles start text (p :: t :: ts)) (hp : Introduces p) :
    ∃ a c rest, text = a ++ c :: (t.text ++ rest) ∧ t.start = start + (a.length + 1) ∧ c ≠ '[' ∧
      (isOwnChar c = false ∨ ∀ d ∈ (t.text ++ rest).head?, Text.isWordChar d = false) ∧
      t.Fits rest ∧ Tiles t.stop rest ts := by
  cases h with
  | @token _ before _ _ _ _ hs hf h =>
    cases h with
    | @token _ blanks rest _ _ hb hs' hf' h' =>
      rw [List.append_assoc] at hf
      obtain ⟨a, c, hac, hc, hbegin⟩ := exists_before hp hf hb
      refine ⟨before ++ a, c, rest, ?_, ?_, hc, hbegin, hf', h'⟩
      · have : p.text ++ (blanks ++ (t.text ++ rest)) = a ++ c :: (t.text ++ rest) := by
          rw [← List.append_assoc, hac, List.append_assoc]
          rfl
        rw [List.append_assoc, List.append_assoc, List.append_assoc, this]
      · have hlength := congrArg List.length hac
        simp only [List.length_append, List.length_singleton] at hlength
        rw [hs', Token.stop, hs, List.length_append]
        omega

/-! ## Names -/

/-- A name is a word, or it stands between backticks. -/
theorem cases_of_isIdentifier {rest : Text} (h : isIdentifier t = true) (hf : t.Fits rest) :
    (∀ d ∈ t.text, d ≠ '[' ∧ d ≠ ']') ∧
      ((t.kind = .word ∧ t.name = t.text ∧ namePosition t = t.start ∧
          ∃ d w, t.text = d :: w ∧ Text.isWordChar d = true) ∨
        (namePosition t = t.start + 1 ∧ t.text = backtick :: t.name ++ [backtick])) := by
  unfold isIdentifier at h
  split at h
  · rename_i hkind
    obtain ⟨name, htext⟩ := hf.quotedName hkind
    simp only [Bool.not_eq_true', Bool.or_eq_false_iff] at h
    refine ⟨?_, .inr ⟨if_pos hkind, ?_⟩⟩
    · intro d hd
      constructor
      · rintro rfl
        rw [List.contains_iff_mem.2 hd] at h
        cases h.1
      · rintro rfl
        rw [List.contains_iff_mem.2 hd] at h
        cases h.2
    · have hname : t.name = name := by
        unfold Token.name
        rw [hkind, htext]
        simp
      rw [hname, htext]
  · rename_i hkind
    obtain ⟨hne, hall, -⟩ := hf.word hkind
    refine ⟨fun d hd => ne_of_isWordChar (hall d hd), .inl ⟨hkind, ?_, ?_, ?_⟩⟩
    · unfold Token.name
      rw [hkind]
    · exact if_neg (by rw [hkind]; decide)
    · obtain ⟨d, w, htext⟩ := List.exists_cons_of_ne_nil hne
      exact ⟨d, w, htext, hall d (by rw [htext]; exact List.mem_cons_self)⟩
  · cases h

/-- The first character of a name never makes a marker of the one in front. -/
theorem begin_of_isIdentifier {c : Char} {rest after : Text} (h : isIdentifier t = true)
    (hf : t.Fits rest)
    (hbegin : isOwnChar c = false ∨ ∀ d ∈ (t.text ++ rest).head?, Text.isWordChar d = false) :
    isOwnChar c = false ∨ ∀ d ∈ (t.text ++ after).head?, isOwnChar d = false := by
  obtain ⟨-, ⟨-, -, -, d, w, htext, hd⟩ | ⟨-, htext⟩⟩ := cases_of_isIdentifier h hf
  · rcases hbegin with hbegin | hbegin
    · exact .inl hbegin
    · have := hbegin d (by rw [htext]; rfl)
      rw [hd] at this
      cases this
  · refine .inr ?_
    intro d hd
    rw [htext] at hd
    cases hd
    decide

theorem slice_append (a x b : Text) :
    (a ++ (x ++ b)).slice a.length (a.length + x.length) = x := by
  unfold Text.slice
  rw [List.drop_left' rfl, Nat.add_sub_cancel_left, List.take_left' rfl]

theorem has_closing_of_noBracket {x : Text} (h : ∀ d ∈ x, d ≠ '[' ∧ d ≠ ']') :
    Text.has x Marker.closing = false := by
  have hx : ']' ∉ x := fun hmem => (h ']' hmem).2 rfl
  rw [← List.append_nil x, Marker.closing]
  exact (Text.has_append_cons hx).trans rfl

/-! ## Edits -/

section Edits

variable {source done : Text} {us : List Token} {e : Edit} {es : List Edit}

/-- The text of a qualified column, from its first token to its last. -/
theorem exists_qualified {dot n : Token} (h : Tiles start text (dot :: n :: ts))
    (hdot : dot.isPunct '.' = true) (hn : n.kind = .word ∨ n.kind = .quotedName)
    (ht : ∀ d ∈ t.text, d ≠ '[' ∧ d ≠ ']') :
    ∃ x rest, text = x ++ rest ∧ n.stop = start + x.length ∧ (t.text ++ x).Sealed ∧
      Tiles n.stop rest ts := by
  cases h with
  | @token _ b₁ _ _ _ hb₁ hs₁ hf₁ h₁ =>
    cases h₁ with
    | @token _ b₂ rest _ _ hb₂ hs₂ hf₂ h₂ =>
      have hdot' : dot.text = ['.'] := by
        unfold Token.isPunct at hdot
        rw [Bool.and_eq_true] at hdot
        exact eq_of_beq hdot.2
      refine ⟨b₁ ++ dot.text ++ (b₂ ++ n.text), rest, by simp, ?_, ?_, h₂⟩
      · simp only [Token.stop, hs₂, hs₁, List.length_append]
        omega
      · rcases hn with hn | hn
        · refine .inl ?_
          intro d hd
          simp only [List.mem_append, hdot', List.mem_singleton] at hd
          rcases hd with hd | (hd | rfl) | hd | hd
          · exact ht d hd
          · exact ne_of_isAsciiBlank (hb₁ d hd)
          · decide
          · exact ne_of_isAsciiBlank (hb₂ d hd)
          · exact ne_of_isWordChar ((hf₂.word hn).2.1 d hd)
        · obtain ⟨name, hname⟩ := hf₂.quotedName hn
          refine .inr ?_
          rw [hname]
          simp only [List.getLast?_append]
          rfl

theorem fitted_cons (hsource : source = done ++ text)
    (ht : Tiles done.length text (p :: (us ++ ts))) (hp : Introduces p) (he : Covers source us e)
    (ih : ∀ done text, source = done ++ text → Tiles done.length text ts →
      Fitted done.length text es) : Fitted done.length text (e :: es) := by
  have hafter : ∀ {a x rest : Text} {c : Char} {stop : Nat}, text = a ++ c :: (x ++ rest) →
      stop = done.length + (a.length + 1) + x.length → Tiles stop rest ts → Fitted stop rest es := by
    intro a x rest c stop htext hstop h
    have hlength : stop = (done ++ (a ++ c :: x)).length := by
      simp only [List.length_append, List.length_cons]
      omega
    rw [hlength] at h ⊢
    refine ih _ rest ?_ h
    rw [hsource, htext]
    simp
  cases he with
  | @table t hid =>
    obtain ⟨a, c, rest, htext, hstart, hc, hbegin, hf, htail⟩ := exists_behind ht hp
    have hrest : Fitted t.stop rest es :=
      hafter htext (by rw [Token.stop, hstart]) htail
    obtain ⟨hplain, ⟨-, hname, hposition, -⟩ | ⟨hposition, hquoted⟩⟩ := cases_of_isIdentifier hid hf
    · rw [htext, hname, hposition]
      exact .cons hstart rfl rfl (.inr (has_closing_of_noBracket hplain)) hc
        (begin_of_isIdentifier hid hf hbegin) (.inl hplain) hrest
    · -- the name stands between the backticks
      have hplain' : ∀ d ∈ t.name, d ≠ '[' ∧ d ≠ ']' := fun d hd =>
        hplain d (by rw [hquoted]; simp [hd])
      have hstop : t.stop = namePosition t + t.name.length + [backtick].length := by
        rw [Token.stop, hposition, hquoted]
        simp
        omega
      have htext' : text = (a ++ [c]) ++ backtick :: (t.name ++ ([backtick] ++ rest)) := by
        rw [htext, hquoted]
        simp
      rw [htext']
      refine .cons ?_ rfl rfl (.inr (has_closing_of_noBracket hplain')) (by decide)
        (.inl (by decide)) (.inl hplain') (.append [backtick] (hstop ▸ hrest))
      show namePosition t = done.length + ((a ++ [c]).length + 1)
      rw [hposition, hstart, List.length_append, List.length_singleton]
      omega
  | @column t hid =>
    obtain ⟨a, c, rest, htext, hstart, hc, hbegin, hf, htail⟩ := exists_behind ht hp
    have hrest : Fitted t.stop rest es :=
      hafter htext (by rw [Token.stop, hstart]) htail
    rw [htext]
    exact .cons hstart rfl rfl (.inl rfl) hc (begin_of_isIdentifier hid hf hbegin)
      (.inl (cases_of_isIdentifier hid hf).1) hrest
  | @qualified t dot n hid hdot hn =>
    obtain ⟨a, c, rest, htext, hstart, hc, hbegin, hf, htail⟩ := exists_behind ht hp
    obtain ⟨x, after, rfl, hstop, hsealed, hafter'⟩ :=
      exists_qualified htail hdot hn (cases_of_isIdentifier hid hf).1
    have hlength : n.stop = t.start + (t.text ++ x).length := by
      rw [hstop, Token.stop, List.length_append]
      omega
    have htext' : text = a ++ c :: ((t.text ++ x) ++ after) := by
      rw [htext, List.append_assoc]
    have hslice : source.slice t.start n.stop = t.text ++ x := by
      have hfront : t.start = (done ++ (a ++ [c])).length := by
        simp only [List.length_append, List.length_singleton]
        omega
      have hwhole : source = (done ++ (a ++ [c])) ++ ((t.text ++ x) ++ after) := by
        rw [hsource, htext']
        simp
      rw [hlength, hfront, hwhole]
      exact slice_append _ _ _
    have hrest : Fitted n.stop after es := hafter htext' (by rw [hlength, hstart]) hafter'
    rw [hslice, htext']
    refine .cons hstart rfl rfl (.inl rfl) hc ?_ hsealed (hlength ▸ hrest)
    rw [List.append_assoc]
    exact begin_of_isIdentifier hid hf hbegin

/-- Where edits are of tokens that tile a text, they can be made in the text. -/
theorem fitted_of_marks (done : Text) (hm : Marks source ts es) (hsource : source = done ++ text)
    (ht : Tiles done.length text ts) : Fitted done.length text es := by
  induction hm generalizing done text with
  | none ts => exact .nil _ _
  | @some as us ts p e es hp he _ ih =>
    obtain ⟨a, b, rfl, hb⟩ := ht.of_append
    refine .append a ?_
    have hlength : done.length + a.length = (done ++ a).length := List.length_append.symm
    rw [hlength] at hb ⊢
    refine fitted_cons ?_ hb hp he fun done text => ih done
    rw [hsource, List.append_assoc]

end Edits

end TypedMirror.Grammar
