import TypedMirror.Proofs.Literals
import TypedMirror.Proofs.Renaming.Lexing
import TypedMirror.Proofs.Tiling

/-!
# Tokens and enclosed text

The reading of tokens heeds comments and backticks, which the search for literals does not.  Still a
token that comes upon a quoted stretch without escapes either is that stretch or takes all of it.

* `mem_readFrom`, `pairwise_readFrom`, `exists_token_at` — tokens come from the text, in order, and
  cover all of it but white space;
* `extent_enclose` — a quoted stretch is one token;
* `extent_ends` — what is at the end of a token that reaches beyond a quote;
* `length_le_of_reaches` — a token that reaches into a quoted stretch reaches to its end.
-/

namespace TypedMirror.Token

/-! ## The tokens of a text -/

section Read

variable {start : Nat} {text a r : Text} {c : Char} {t u : Token}

theorem mem_readFrom (h : t ∈ readFrom start text) : ∃ a c r n, text = a ++ c :: r ∧
    t.start = start + a.length ∧ extent c r = (t.kind, n) ∧ t.text = c :: r.take n := by
  fun_induction readFrom start text with
  | case1 => cases h
  | case2 start c r hc ih =>
    obtain ⟨a, d, s, n, rfl, hstart, hextent, htext⟩ := ih h
    refine ⟨c :: a, d, s, n, rfl, ?_, hextent, htext⟩
    rw [hstart, List.length_cons]
    omega
  | case3 start c r hc e text ih =>
    rcases List.mem_cons.1 h with rfl | h
    · exact ⟨[], c, r, e.2, rfl, rfl, rfl, rfl⟩
    · obtain ⟨a, d, s, n, hdrop, hstart, hextent, htext⟩ := ih h
      refine ⟨text ++ a, d, s, n, ?_, ?_, hextent, htext⟩
      · rw [List.append_assoc, ← hdrop]
        exact congrArg (c :: ·) (List.take_append_drop _ _).symm
      · rw [hstart, List.length_append, Nat.add_assoc]

theorem start_lt_stop (h : t ∈ readFrom start text) : t.start < t.stop := by
  obtain ⟨a, c, r, n, -, -, -, htext⟩ := mem_readFrom h
  rw [stop, htext, List.length_cons]
  omega

theorem pairwise_readFrom (start : Nat) (text : Text) :
    (readFrom start text).Pairwise fun t u => t.stop ≤ u.start := by
  fun_induction readFrom start text with
  | case1 => exact .nil
  | case2 start c r hc ih => exact ih
  | case3 start c r hc e text ih =>
    refine List.pairwise_cons.2 ⟨fun u hu => ?_, ih⟩
    obtain ⟨a, -, -, -, -, hstart, -, -⟩ := mem_readFrom hu
    rw [hstart]
    exact Nat.le_add_right _ _

/-- Two tokens of a text have no character in common. -/
theorem eq_of_overlap (ht : t ∈ read text) (hu : u ∈ read text) (htu : t.start < u.stop)
    (hut : u.start < t.stop) : t = u := by
  have hpairwise : (read text).Pairwise fun t u => t.stop ≤ u.start := pairwise_readFrom 0 text
  generalize read text = ts at ht hu hpairwise
  induction hpairwise with
  | nil => cases ht
  | cons hfirst _ ih =>
    rcases List.mem_cons.1 ht with rfl | ht'
    · rcases List.mem_cons.1 hu with rfl | hu'
      · rfl
      · exact absurd (hfirst u hu') (Nat.not_le_of_lt hut)
    · rcases List.mem_cons.1 hu with rfl | hu'
      · exact absurd (hfirst t ht') (Nat.not_le_of_lt htu)
      · exact ih ht' hu'

/-- Every character but white space is in a token. -/
theorem exists_token_at (start : Nat) (text : Text) : ∀ a c r, text = a ++ c :: r →
    Text.isAsciiBlank c = false →
    ∃ t ∈ readFrom start text, t.start ≤ start + a.length ∧ start + a.length < t.stop := by
  fun_induction readFrom start text with
  | case1 => simp
  | case2 start d s hd ih =>
    intro a c r h hc
    cases a with
    | nil =>
      cases h
      rw [hc] at hd
      cases hd
    | cons b a =>
      obtain ⟨t, ht, hstart, hstop⟩ := ih a c r (List.cons.inj h).2 hc
      refine ⟨t, ht, ?_, ?_⟩
      · rw [List.length_cons]
        omega
      · rw [List.length_cons]
        omega
  | case3 start d s hd e text ih =>
    intro a c r h hc
    have hsplit : text ++ s.drop e.2 = a ++ c :: r := by
      rw [← h]
      exact congrArg (d :: ·) (List.take_append_drop _ _)
    rcases List.append_eq_append_iff.1 hsplit with ⟨b, rfl, hrest⟩ | ⟨b, hb, hrest⟩
    · obtain ⟨t, ht, hstart, hstop⟩ := ih b c r hrest hc
      rw [Nat.add_assoc, ← List.length_append] at hstart hstop
      exact ⟨t, List.mem_cons_of_mem _ ht, hstart, hstop⟩
    · cases b with
      | nil =>
        obtain ⟨t, ht, hstart, hstop⟩ := ih [] c r hrest.symm hc
        rw [List.append_nil] at hb
        rw [hb] at hstart hstop ht ⊢
        exact ⟨t, List.mem_cons_of_mem _ ht, hstart, hstop⟩
      | cons b bs =>
        refine ⟨_, List.mem_cons_self, Nat.le_add_right _ _, Nat.add_lt_add_left ?_ start⟩
        change a.length < text.length
        rw [hb, List.length_append, List.length_cons]
        omega

/-- A token that starts in the first part of a text. -/
theorem exists_extent_of_start_lt {lead : Text} (ht : t ∈ read (lead ++ text))
    (h : t.start < lead.length) : ∃ a c b n, lead = a ++ c :: b ∧ t.start = a.length ∧
      extent c (b ++ text) = (t.kind, n) ∧ t.stop = a.length + 1 + min n (b ++ text).length := by
  obtain ⟨a, c, r, n, hsplit, ha, hextent, htext⟩ := mem_readFrom ht
  rw [Nat.zero_add] at ha
  obtain ⟨b, rfl, rfl⟩ : ∃ b, lead = a ++ c :: b ∧ r = b ++ text := by
    rcases List.append_eq_append_iff.1 hsplit with ⟨d, rfl, -⟩ | ⟨d, rfl, hrest⟩
    · simp only [List.length_append] at ha
      omega
    · cases d with
      | nil => simp [ha] at h
      | cons d ds =>
        obtain ⟨rfl, hr⟩ := List.cons.inj hrest
        exact ⟨ds, rfl, hr⟩
  refine ⟨a, c, b, n, rfl, ha, hextent, ?_⟩
  rw [stop, ha, htext, List.length_cons, List.length_take]
  omega

end Read

/-! ## Quoted stretches -/

section Extent

open Passage (isQuote enclose)

variable {c quote : Char} {r y z contents : Text} {k : Kind} {n : Nat}

theorem eq_of_isQuote (h : isQuote c = true) : c = '\'' ∨ c = '"' := by
  simpa [isQuote] using h

theorem commentExtent_quote (h : isQuote quote = true) (r : Text) :
    commentExtent quote r = none := by
  refine commentExtent_eq_none_iff.2 ⟨?_, fun _ hc => ?_, fun _ hc => ?_⟩
  all_goals
    rcases eq_of_isQuote h with rfl | rfl
    all_goals first | decide | cases hc

/-- A quoted stretch without quotes and backslashes inside is one token. -/
theorem extent_enclose (h : isQuote quote = true)
    (hcontents : ∀ d ∈ contents, d ≠ '\\' ∧ d ≠ quote) (r : Text) :
    extent quote (contents ++ quote :: r) = (.literal, contents.length + 1) := by
  have hword : Text.isWordChar quote = false := by rcases eq_of_isQuote h with rfl | rfl <;> decide
  have hbacktick : quote ≠ backtick := by rcases eq_of_isQuote h with rfl | rfl <;> decide
  have hquote : quote ≠ '\\' := by rcases eq_of_isQuote h with rfl | rfl <;> decide
  have hextent : quoteExtent quote (contents ++ quote :: r) = some (contents.length + 1) := by
    rw [quoteExtent, Quoted.close_append_left hcontents, Quoted.close_cons hquote, if_pos rfl]
    simp
  rw [extent, commentExtent_quote h]
  simp only [hword, Bool.false_eq_true, if_false, if_neg hbacktick, if_pos (eq_of_isQuote h),
    hextent]

theorem isQuote_of_extent (h : extent c r = (.literal, n)) : isQuote c = true := by
  unfold extent at h
  by_cases hquote : c = '\'' ∨ c = '"'
  · simpa [isQuote] using hquote
  · rw [if_neg hquote] at h
    dsimp only at h
    repeat' split at h
    all_goals cases h

/-- The end of a token that takes `n` characters after its first one: the end of the text, a
character that closes it, or the end of a line. -/
def Ended (r : Text) (n : Nat) : Prop :=
  r.length ≤ n ∨ (∃ d ∈ (r.take n).getLast?, d = backtick ∨ d = '/') ∨
    (r.drop n).head? = some '\n'

theorem ended_lineLength (r : Text) : Ended r (lineLength r) := by
  have hdrop : r.drop (lineLength r) = r.dropWhile (· != '\n') := by
    rw [lineLength]
    conv_lhs => rw [← List.takeWhile_append_dropWhile (p := (· != '\n')) (l := r)]
    exact List.drop_left' (by simp)
  cases hrest : r.dropWhile (· != '\n') with
  | nil => exact .inl (List.drop_eq_nil_iff.1 (hdrop.trans hrest))
  | cons d s =>
    have hd := List.head?_dropWhile_not (· != '\n') r
    rw [hrest] at hd
    refine .inr (.inr ?_)
    rw [hdrop, hrest]
    simpa using hd

theorem Ended.cons (h : Ended r n) (c : Char) : Ended (c :: r) (1 + n) := by
  rw [Ended, Nat.add_comm, List.take_succ_cons, List.drop_succ_cons, List.length_cons]
  rcases h with h | ⟨d, hd, hclose⟩ | h
  · exact .inl (Nat.succ_le_succ h)
  · refine .inr (.inl ⟨d, ?_, hclose⟩)
    rw [List.getLast?_cons, Option.mem_def.1 hd]
    rfl
  · exact .inr (.inr h)

theorem ended_append_singleton {d : Char} (hd : d = backtick ∨ d = '/') (x r : Text) :
    Ended (x ++ d :: r) (x.length + 1) := by
  have htake : (x ++ d :: r).take (x.length + 1) = x ++ [d] := by
    rw [List.append_cons]
    exact List.take_left' (by simp)
  exact .inr (.inl ⟨d, by rw [htake, List.getLast?_concat]; rfl, hd⟩)

theorem ended_commentExtent (h : commentExtent c r = some n) : Ended r n := by
  unfold commentExtent at h
  split at h
  · cases h
    exact ended_lineLength r
  · rename_i after
    split at h
    · cases h
      exact (ended_lineLength after).cons '-'
    · cases h
  · split at h
    · rename_i body rest hcut
      cases h
      have hafter := Text.cut_eq_some hcut
      have hr : '*' :: (body ++ "*/".toList ++ rest) = ('*' :: body ++ ['*']) ++ '/' :: rest := by
        simp
      rw [hafter, hr]
      simpa using ended_append_singleton (.inr rfl) ('*' :: body ++ ['*']) rest
    · cases h
      exact .inl (Nat.le_of_eq (List.length_cons ..))
  · cases h

theorem not_isQuote_fraction (r : Text) : ∀ d ∈ r.take (fractionExtent r), isQuote d = false := by
  unfold fractionExtent
  split
  · rename_i r
    dsimp only
    split
    · simp
    · intro d hd
      rw [List.take_succ_cons, ← List.prefix_iff_eq_take.1 (List.takeWhile_prefix _)] at hd
      rcases List.mem_cons.1 hd with rfl | hd
      · rfl
      · have hdigit : d.isDigit = true := List.all_eq_true.1 List.all_takeWhile d hd
        exact Text.isQuote_of_isWordChar (by simp [Text.isWordChar, Char.isAlphanum, hdigit])
  · simp

/-- The characters of a bare word or a number. -/
theorem not_isQuote_takeWhile (r : Text) :
    ∀ d ∈ r.take (r.takeWhile Text.isWordChar).length, isQuote d = false := by
  intro d hd
  rw [← List.prefix_iff_eq_take.1 (List.takeWhile_prefix _)] at hd
  exact Text.isQuote_of_isWordChar (List.all_eq_true.1 List.all_takeWhile d hd)

theorem not_isQuote_of_mem_operators {op : Text} {d : Char} (h : op ∈ operators) (hd : d ∈ op) :
    isQuote d = false := by
  have hall : operators.all (fun op => op.all fun d => !isQuote d) = true := by decide
  simpa using List.all_eq_true.1 (List.all_eq_true.1 hall op h) d hd

/-- A token that is no literal reaches no quote, or else it goes on to such an end. -/
theorem extent_ends (h : extent c r = (k, n)) (hk : k ≠ .literal) :
    (∀ d ∈ r.take n, isQuote d = false) ∨
      (k = .quotedName ∨ k = .comment ∨ k = .other) ∧ Ended r n := by
  have hrest : (k = .quotedName ∨ k = .comment ∨ k = .other) → n = r.length →
      (∀ d ∈ r.take n, isQuote d = false) ∨
        (k = .quotedName ∨ k = .comment ∨ k = .other) ∧ Ended r n := fun hk hn =>
    .inr ⟨hk, .inl (Nat.le_of_eq hn.symm)⟩
  unfold extent at h
  split at h
  · rename_i hcomment
    cases h
    exact .inr ⟨.inr (.inl rfl), ended_commentExtent hcomment⟩
  split at h
  · dsimp only at h
    split at h
    · cases h
      refine .inl fun d hd => ?_
      rw [List.take_add] at hd
      rcases List.mem_append.1 hd with hd | hd
      · exact not_isQuote_takeWhile r d hd
      · exact not_isQuote_fraction _ d hd
    · cases h
      exact .inl (not_isQuote_takeWhile r)
  split at h
  · split at h
    · rename_i hn
      cases h
      obtain ⟨x, y, rfl, -, rfl⟩ := backtickExtent_eq_some.1 hn
      exact .inr ⟨.inl rfl, ended_append_singleton (.inl rfl) x y⟩
    · cases h
      exact hrest (.inr (.inr rfl)) rfl
  split at h
  · split at h
    · cases h
      exact absurd rfl hk
    · cases h
      exact hrest (.inr (.inr rfl)) rfl
  split at h
  · rename_i op hop
    cases h
    have hfits : Fits ⟨.operator, c :: r.take (op.length - 1), 0⟩ [] := fits_operator hop
    exact .inl fun d hd =>
      not_isQuote_of_mem_operators (hfits.operator rfl) (List.mem_cons_of_mem c hd)
  · split at h
    · cases h
      exact .inl (by simp)
    · cases h
      exact .inl (by simp)

/-- A token that comes upon a quoted stretch takes all of it, if the stretch holds nothing that such
a token ends with. -/
theorem length_le_of_reaches {x e rest : Text} (h : extent c (x ++ (quote :: e ++ rest)) = (k, n))
    (hk : k ≠ .literal) (hquote : isQuote quote = true)
    (he : ∀ d ∈ quote :: e, d ≠ backtick ∧ d ≠ '/' ∧ d ≠ '\n') (hn : x.length < n) :
    (k = .quotedName ∨ k = .comment ∨ k = .other) ∧ x.length + (quote :: e).length ≤ n := by
  obtain ⟨m, rfl⟩ : ∃ m, n = x.length + (m + 1) := ⟨n - x.length - 1, by omega⟩
  have htake : ∀ {u : Text}, (x ++ u).take (x.length + (m + 1)) = x ++ u.take (m + 1) :=
    List.take_length_add_append ..
  rcases extent_ends h hk with hplain | ⟨hkind, hend⟩
  · have hmem : quote ∈ (x ++ (quote :: e ++ rest)).take (x.length + (m + 1)) := by
      rw [htake]
      exact List.mem_append_right x List.mem_cons_self
    rw [hplain quote hmem] at hquote
    cases hquote
  refine ⟨hkind, Nat.add_le_add_left ?_ x.length⟩
  by_contra hlt
  -- the token would end in a character of the stretch, and before another one of it
  have hinside : (quote :: e ++ rest).take (m + 1) = (quote :: e).take (m + 1) :=
    List.take_append_of_le_length (Nat.le_of_not_le hlt)
  rcases hend with hend | ⟨d, hd, hclose⟩ | hline
  · simp only [List.length_append] at hend
    omega
  · rw [htake, hinside, List.getLast?_append_of_ne_nil _ (by simp)] at hd
    have hmem := List.mem_of_mem_take (List.mem_of_getLast? hd)
    rcases hclose with rfl | rfl
    · exact (he _ hmem).1 rfl
    · exact (he _ hmem).2.1 rfl
  · rw [List.drop_length_add_append, List.drop_append_of_le_length (Nat.le_of_not_le hlt)] at hline
    obtain ⟨b, bs, hdrop⟩ := List.exists_cons_of_ne_nil
      (List.ne_nil_of_length_pos (l := (quote :: e).drop (m + 1)) (by rw [List.length_drop]; omega))
    rw [hdrop] at hline
    have hmem : b ∈ (quote :: e).drop (m + 1) := by rw [hdrop]; exact List.mem_cons_self
    exact (he b (List.mem_of_mem_drop hmem)).2.2 (Option.some.inj hline)

end Extent

end TypedMirror.Token
