import TypedMirror.Proofs.Conjuncts
import TypedMirror.Proofs.Contents
import TypedMirror.Proofs.Literals.Lexing
import TypedMirror.Proofs.Patches

/-!
# The places of literals

A literal of a query has its place in the deflated query, where its marker stands between the same
quotes.  The reading of tokens looks at comments and backticks as well as at quotes, and so it may
pass over some of these places; but it takes each of them as one token or goes past the whole of it.

* `Deflated.Place` — a literal, with what stands around it;
* `Place.exists_token` — the token that a place is in;
* `Place.not_inside` — no token starts or ends in a marker;
* `literalId?_iff`, `pairwise_literalId?` — which tokens have a number, and in what order.
-/

namespace TypedMirror

namespace Deflated

/-- A literal of a query: the passages around it, as the query is split. -/
structure Place (query : Text) where
  before : List Passage
  passage : Passage
  after : List Passage
  split_eq : (Passage.split query).1 = before ++ passage :: after

namespace Place

variable {query : Text}

/-- The number of the literal. -/
def number (x : Place query) : Nat := x.before.length + 1

def quote (x : Place query) : Char := x.passage.quote

def contents (x : Place query) : Text := x.passage.contents

/-- The query up to the opening quote. -/
def left (x : Place query) : Text := x.before.flatMap Passage.text ++ x.passage.before

/-- The query behind the closing quote. -/
def right (x : Place query) : Text := x.after.flatMap Passage.text ++ (Passage.split query).2

/-- The deflated query up to the opening quote. -/
def lead (x : Place query) : Text := textFrom 1 x.before x.passage.before

/-- The deflated query behind the closing quote. -/
def behind (x : Place query) : Text := textFrom (x.number + 1) x.after (Passage.split query).2

/-- The marker between its quotes. -/
def enclosed (x : Place query) : Text := Passage.enclose x.quote (marker x.number).write

/-- The position of the marker. -/
def start (x : Place query) : Nat := x.lead.length + 1

/-- The position just after the marker. -/
def stop (x : Place query) : Nat := x.start + (marker x.number).write.length

/-- The token of the marker and its quotes. -/
def IsToken (x : Place query) (t : Token) : Prop :=
  t.kind = .literal ∧ t.text = x.enclosed ∧ t.start + 1 = x.start

variable (x : Place query)

theorem sound_of_mem {p : Passage} (hp : p ∈ x.before ++ x.passage :: x.after) : p.Sound :=
  Passage.sound_of_mem_split (t := query) (by rw [x.split_eq]; exact hp)

theorem sound_before {p : Passage} (hp : p ∈ x.before) : p.Sound :=
  x.sound_of_mem (List.mem_append_left _ hp)

theorem sound_passage : x.passage.Sound := x.sound_of_mem (by simp)

theorem query_eq : query = x.left ++ Passage.enclose x.quote x.contents ++ x.right := by
  have h := Passage.text_split query
  rw [x.split_eq] at h
  refine h.symm.trans ?_
  simp [left, right, quote, contents, Passage.enclose, Passage.text]

theorem deflated_eq : (ofQuery query).query = x.lead ++ (x.enclosed ++ x.behind) := by
  have h : (ofQuery query).query =
      textFrom 1 (Passage.split query).1 (Passage.split query).2 := rfl
  rw [h, x.split_eq, textFrom_append, Nat.add_comm 1]
  simp [lead, enclosed, quote, behind, number, Passage.enclose]

/-- What stands before a literal is deflated by itself. -/
theorem lead_eq : x.lead = (ofQuery x.left).query := by
  have hsplit : Passage.split x.left = (x.before, x.passage.before) :=
    Passage.split_flatMap (fun p hp => x.sound_before hp)
      (Passage.split_of_noQuote x.sound_passage.before)
  rw [ofQuery_of_split hsplit]
  rfl

theorem literal?_number : (ofQuery query).literal? x.number = some x.contents := by
  change ((Passage.split query).1.map (·.contents))[x.before.length]? = some x.passage.contents
  rw [x.split_eq]
  simp

theorem exists_of_literal? {n : Nat} {s : Text} (h : (ofQuery query).literal? n = some s) :
    ∃ x : Place query, x.number = n := by
  obtain ⟨ps, p, qs, hsplit, rfl, -⟩ := exists_place h
  exact ⟨⟨ps, p, qs, hsplit⟩, rfl⟩

theorem stop_eq : x.stop + 1 = x.lead.length + x.enclosed.length := by
  simp [stop, start, enclosed, Passage.enclose]
  omega

/-- The places before a place. -/
theorem exists_earlier {ps qs : List Passage} {p : Passage} (h : x.before = ps ++ p :: qs) :
    ∃ y : Place query, y.before = ps ∧ y.passage = p ∧ y.number < x.number ∧
      ∃ b, x.lead = y.lead ++ (y.enclosed ++ b) := by
  have hsplit : (Passage.split query).1 = ps ++ p :: (qs ++ x.passage :: x.after) := by
    rw [x.split_eq, h]
    simp
  have hlength := congrArg List.length h
  have hlead : x.lead = textFrom 1 ps p.before ++ p.quote :: (marker (ps.length + 1)).write ++
      p.quote :: textFrom (ps.length + 2) qs x.passage.before := by
    rw [lead, h, textFrom_append, Nat.add_comm 1]
  refine ⟨⟨ps, p, _, hsplit⟩, rfl, rfl, ?_, textFrom (ps.length + 2) qs x.passage.before, ?_⟩
  · simp only [List.length_append, List.length_cons] at hlength
    simp only [number]
    omega
  · rw [hlead]
    simp [lead, enclosed, quote, number, Passage.enclose]

end Place

/-! ## Quotes of a deflated query -/

section Quotes

variable {t a r : Text} {c : Char} {id : Nat} {ps : List Passage} {tail : Text}

theorem not_isQuote_of_isOwnChar (h : Marker.isOwnChar c = true) : Passage.isQuote c = false := by
  simp only [Marker.isOwnChar, Bool.or_eq_true, beq_iff_eq] at h
  rcases h with ((rfl | rfl) | rfl) | h
  · rfl
  · rfl
  · rfl
  · exact Text.isQuote_of_isWordChar h

theorem mem_of_mem_escape (h : c ∈ Template.escape t) (hc : Passage.isQuote c = true) : c ∈ t := by
  fun_induction Template.escape t with
  | case1 r ih =>
    rcases List.mem_append.1 h with h | h
    · have hown := Marker.isOwnChar_of_mem_write (.inl rfl) h
      rw [not_isQuote_of_isOwnChar hown] at hc
      cases hc
    · exact List.mem_cons_of_mem _ (List.mem_cons_of_mem _ (ih h))
  | case2 d r _ ih =>
    rcases List.mem_cons.1 h with rfl | h
    · exact List.mem_cons_self
    · exact List.mem_cons_of_mem _ (ih h)
  | case3 => cases h

theorem exists_append_of_not_mem {u v : Text} (h : u ++ v = a ++ c :: r) (hc : c ∉ u) :
    ∃ b, a = u ++ b ∧ v = b ++ c :: r := by
  rcases List.append_eq_append_iff.1 h with ⟨b, rfl, hv⟩ | ⟨b, rfl, hr⟩
  · exact ⟨b, rfl, hv⟩
  · cases b with
    | nil => exact ⟨[], by simp, by simpa using hr.symm⟩
    | cons d b =>
      obtain ⟨rfl, -⟩ := List.cons.inj hr
      exact absurd (by simp) hc

/-- A quote is one of those of a literal, or it stands behind all of them. -/
theorem quote_of_textFrom (hps : ∀ p ∈ ps, p.Sound) (hc : Passage.isQuote c = true)
    (h : textFrom id ps tail = a ++ c :: r) :
    (∃ before p after, ps = before ++ p :: after ∧ (a = textFrom id before p.before ∨
      a = textFrom id before p.before ++ p.quote :: (marker (id + before.length)).write)) ∨
    ∃ b, Template.escape tail = b ++ c :: r := by
  induction ps generalizing id a with
  | nil => exact .inr ⟨a, h⟩
  | cons p ps ih =>
    obtain ⟨hp, hps⟩ := List.forall_mem_cons.1 hps
    rw [textFrom, List.append_assoc] at h
    have hbefore : c ∉ Template.escape p.before := by
      intro hmem
      rw [hp.before c (mem_of_mem_escape hmem hc)] at hc
      cases hc
    have hmarker : c ∉ (marker id).write := by
      intro hmem
      rw [not_isQuote_of_isOwnChar (Marker.isOwnChar_of_mem_write (.inr ⟨id, rfl⟩) hmem)] at hc
      cases hc
    obtain ⟨b, rfl, hopen⟩ := exists_append_of_not_mem h hbefore
    cases b with
    | nil => exact .inl ⟨[], p, ps, rfl, .inl (List.append_nil _)⟩
    | cons d b =>
      obtain ⟨rfl, hinside⟩ := List.cons.inj hopen
      obtain ⟨b, rfl, hclose⟩ := exists_append_of_not_mem hinside hmarker
      cases b with
      | nil => exact .inl ⟨[], p, ps, rfl, .inr (by simp [textFrom])⟩
      | cons d b =>
        obtain ⟨rfl, hrest⟩ := List.cons.inj hclose
        rcases ih hps hrest with ⟨before, q, after, rfl, hb⟩ | hb
        · refine .inl ⟨p :: before, q, after, rfl, ?_⟩
          rw [textFrom, List.length_cons, Nat.add_comm before.length, ← Nat.add_assoc]
          rcases hb with rfl | rfl
          · exact .inl (by simp)
          · exact .inr (by simp)
        · exact .inr hb

end Quotes

/-! ## The token of a place -/

namespace Place

variable {query : Text} (x : Place query) {t : Token}

theorem isQuote_quote : Passage.isQuote x.quote = true := x.sound_passage.quote

/-- No quoted name, comment or unclosed quote ends in a marker. -/
theorem not_closing_of_isOwnChar {c : Char} (h : Marker.isOwnChar c = true) :
    c ≠ '\\' ∧ c ≠ Token.backtick ∧ c ≠ '/' ∧ c ≠ '\n' := by
  refine ⟨?_, ?_, ?_, ?_⟩
  all_goals
    rintro rfl
    exact absurd h (by decide)

theorem isOwnChar_of_mem_marker {c : Char} (h : c ∈ (marker x.number).write) :
    Marker.isOwnChar c = true :=
  Marker.isOwnChar_of_mem_write (.inr ⟨_, rfl⟩) h

theorem not_ending_of_mem_enclosed {c : Char} (h : c ∈ x.enclosed) :
    c ≠ Token.backtick ∧ c ≠ '/' ∧ c ≠ '\n' := by
  have hc : c = x.quote ∨ c ∈ (marker x.number).write := by
    simp only [enclosed, Passage.enclose, List.mem_append, List.mem_cons] at h
    tauto
  rcases hc with rfl | hc
  · rcases Token.eq_of_isQuote x.isQuote_quote with h | h <;> rw [h] <;> decide
  · exact (not_closing_of_isOwnChar (x.isOwnChar_of_mem_marker hc)).2

/-- A token that starts at the opening quote is that of the place. -/
theorem isToken_of_start (ht : t ∈ Token.read (ofQuery query).query)
    (h : t.start = x.lead.length) : x.IsToken t := by
  obtain ⟨a, c, r, n, hsplit, hstart, hextent, htext⟩ := Token.mem_readFrom ht
  rw [x.deflated_eq] at hsplit
  obtain ⟨-, hrest⟩ := List.append_inj hsplit (by omega)
  obtain ⟨rfl, hr⟩ := List.cons.inj hrest
  have hcontents : ∀ d ∈ (marker x.number).write, d ≠ '\\' ∧ d ≠ x.quote := by
    intro d hd
    have hown := x.isOwnChar_of_mem_marker hd
    refine ⟨(not_closing_of_isOwnChar hown).1, ?_⟩
    rintro rfl
    have hquote := not_isQuote_of_isOwnChar hown
    rw [x.isQuote_quote] at hquote
    cases hquote
  have hr' : r = (marker x.number).write ++ x.quote :: x.behind := by simpa using hr.symm
  rw [hr', Token.extent_enclose x.isQuote_quote hcontents] at hextent
  obtain ⟨hkind, rfl⟩ := Prod.mk.inj hextent
  refine ⟨hkind.symm, ?_, by rw [h]; rfl⟩
  rw [htext, hr', List.append_cons, List.take_left' (by simp)]
  rfl

theorem IsToken.stop_eq {x : Place query} (h : x.IsToken t) : t.stop = x.stop + 1 := by
  obtain ⟨-, htext, hstart⟩ := h
  rw [x.stop_eq, Token.stop, htext]
  simp only [start] at hstart
  omega

theorem length_upto_stop : (textFrom 1 x.before x.passage.before ++
    x.passage.quote :: (marker (1 + x.before.length)).write).length = x.stop := by
  rw [Nat.add_comm 1, List.length_append, List.length_cons, stop, start, lead, number]
  omega

/-- No other token starts at the closing quote. -/
theorem start_ne_stop {u : Token} (hu : u ∈ Token.read (ofQuery query).query)
    (hstart : u.start < x.start) (hstop : x.stop < u.stop)
    (ht : t ∈ Token.read (ofQuery query).query) : t.start ≠ x.stop := by
  intro h
  have := Token.start_lt_stop ht
  have hle : x.start ≤ x.stop := Nat.le_add_right _ _
  obtain rfl := Token.eq_of_overlap ht hu (by omega) (by omega)
  omega

/-- No literal starts before the opening quote and goes past it, if the earlier places are in tokens
that go past their closing quotes. -/
theorem not_isQuote_of_straddles (ih : ∀ y : Place query, y.number < x.number →
      ∃ u ∈ Token.read (ofQuery query).query, u.start < y.start ∧ y.stop < u.stop)
    (ht : t ∈ Token.read (ofQuery query).query) {a b : Text} {c : Char}
    (hlead : x.lead = a ++ c :: b) (ha : t.start = a.length) (hstop : x.lead.length < t.stop) :
    Passage.isQuote c = false := by
  by_contra hc
  rw [Bool.not_eq_false] at hc
  rcases quote_of_textFrom (fun p hp => x.sound_before hp) hc hlead with
    ⟨ps, p, qs, hbefore, hopen⟩ | ⟨d, hd⟩
  · obtain ⟨y, rfl, rfl, hnumber, d, hy⟩ := x.exists_earlier hbefore
    have hlength := congrArg List.length hy
    rw [List.length_append, List.length_append] at hlength
    rcases hopen with rfl | hclose
    · -- from its opening quote the literal is the earlier token
      have hend := (y.isToken_of_start ht ha).stop_eq
      have := y.stop_eq
      omega
    · -- its closing quote is in the token of the earlier place
      obtain ⟨u, hu, hustart, hustop⟩ := ih y hnumber
      exact y.start_ne_stop hu hustart hustop ht (by rw [ha, hclose, y.length_upto_stop])
  · have hmem := mem_of_mem_escape (hd ▸ List.mem_append_right d List.mem_cons_self) hc
    rw [x.sound_passage.before c hmem] at hc
    cases hc

/-- The token that the opening quote is in is that of the place, or goes past the closing quote. -/
theorem exists_token : ∃ t ∈ Token.read (ofQuery query).query, t.start < x.start ∧ x.stop < t.stop ∧
    (x.IsToken t ∨ t.kind = .quotedName ∨ t.kind = .comment ∨ t.kind = .other) := by
  induction hn : x.number using Nat.strong_induction_on generalizing x with
  | _ n ih =>
    subst hn
    have hblank : Text.isAsciiBlank x.quote = false := by
      rcases Token.eq_of_isQuote x.isQuote_quote with h | h <;> rw [h] <;> rfl
    obtain ⟨t, ht, hstart, hstop⟩ := Token.exists_token_at 0 _ x.lead x.quote _ x.deflated_eq hblank
    rw [Nat.zero_add] at hstart hstop
    rcases Nat.eq_or_lt_of_le hstart with hstart | hstart
    · have htoken := x.isToken_of_start ht hstart
      have hend := htoken.stop_eq
      exact ⟨t, ht, by rw [start]; omega, by omega, .inl htoken⟩
    obtain ⟨a, c, b, n, hlead, ha, hextent, hend⟩ :=
      Token.exists_extent_of_start_lt (x.deflated_eq ▸ ht) hstart
    have hplain := x.not_isQuote_of_straddles (fun y hy => by
      obtain ⟨u, hu, hustart, hustop, -⟩ := ih _ hy y rfl
      exact ⟨u, hu, hustart, hustop⟩) ht hlead ha hstop
    have hkind : t.kind ≠ .literal := by
      intro hk
      rw [hk] at hextent
      rw [Token.isQuote_of_extent hextent] at hplain
      cases hplain
    have hlength := congrArg List.length hlead
    have hstop_eq := x.stop_eq
    simp only [List.length_append, List.length_cons] at hlength hend
    obtain ⟨hkinds, hreach⟩ := Token.length_le_of_reaches hextent hkind x.isQuote_quote
      (fun d hd => x.not_ending_of_mem_enclosed hd) (by omega)
    change b.length + x.enclosed.length ≤ n at hreach
    exact ⟨t, ht, by rw [start]; omega, by omega, .inr hkinds⟩

theorem not_inside (ht : t ∈ Token.read (ofQuery query).query) :
    ¬ (x.start < t.start ∧ t.start < x.stop) ∧ ¬ (x.start < t.stop ∧ t.stop < x.stop) := by
  obtain ⟨u, hu, hustart, hustop, -⟩ := x.exists_token
  have := Token.start_lt_stop ht
  constructor
  · rintro ⟨hstart, hstop⟩
    obtain rfl := Token.eq_of_overlap ht hu (by omega) (by omega)
    omega
  · rintro ⟨hstart, hstop⟩
    obtain rfl := Token.eq_of_overlap ht hu (by omega) (by omega)
    omega

theorem lead_length_le {x y : Place query} (h : y.number ≤ x.number) :
    y.lead.length ≤ x.lead.length := by
  have hsplit := y.split_eq.symm.trans x.split_eq
  obtain ⟨d, hd⟩ := List.prefix_of_prefix_length_le (List.prefix_append y.before (y.passage :: y.after))
    (hsplit ▸ List.prefix_append x.before (x.passage :: x.after)) (Nat.le_of_succ_le_succ h)
  cases d with
  | nil =>
    rw [List.append_nil] at hd
    rw [hd, List.append_cancel_left_eq] at hsplit
    rw [lead, lead, hd, (List.cons.inj hsplit).1]
  | cons p qs =>
    obtain ⟨z, hbefore, hpassage, -, b, hlead⟩ := x.exists_earlier hd.symm
    have hp : y.passage = p := by
      rw [← hd, List.append_assoc, List.append_cancel_left_eq] at hsplit
      exact (List.cons.inj hsplit).1
    have hz : z.lead = y.lead := by rw [lead, lead, hbefore, hpassage, hp]
    rw [hlead, hz, List.length_append]
    omega

end Place

/-! ## Numbers of tokens -/

section Number

variable {query : Text} {x : Place query} {t : Token} {n : Nat}

theorem literalId?_of_isToken (h : x.IsToken t) : Grammar.literalId? t = some x.number := by
  obtain ⟨hkind, htext, -⟩ := h
  have hname : Text.after? "[[literal:".toList t.text.tail.dropLast =
      some (Numeral.write x.number ++ Marker.closing) := by
    rw [Text.after?_eq_some, htext, Place.enclosed, Passage.enclose]
    change ((marker x.number).write ++ [x.quote]).dropLast = _
    rw [List.dropLast_concat]
    rfl
  have hplain := plain_marker x.number
  have hcut : Text.cut Marker.closing (Numeral.write x.number ++ Marker.closing) =
      some (Numeral.write x.number, []) := by
    have := Marker.cut_closing hplain.noClosing hplain.last []
    rwa [List.append_nil] at this
  unfold Grammar.literalId?
  rw [if_neg (not_not.2 hkind), hname]
  change (Text.cut Marker.closing (Numeral.write x.number ++ Marker.closing)).bind _ = _
  rw [hcut]
  exact Numeral.read_write x.number

/-- In escaped text no marker of a literal begins. -/
theorem after?_of_escape {tail a r : Text} (h : Template.escape tail = a ++ r) :
    Text.after? "[[literal:".toList r = none := by
  cases hafter : Text.after? "[[literal:".toList r with
  | none => rfl
  | some s =>
    have hr : r = '[' :: '[' :: 'l' :: ("iteral:".toList ++ s) := Text.after?_eq_some.1 hafter
    have hread : Template.Readable (Template.escapeSegments tail) := by
      have : Template.Readable (Template.escapeSegments tail ++ []) :=
        Template.readable_escapeSegments nofun trivial
      rwa [List.append_nil] at this
    rw [hr, ← Template.text_escapeSegments] at h
    obtain ⟨us, m, vs, hss, hus⟩ := Template.exists_marker_of_opening hread
      (fun m hm => .inl (Template.isStored_of_mem_escapeSegments hm)) (by decide) h
    have hm : m = ⟨.escape, []⟩ :=
      Template.isStored_of_mem_escapeSegments (t := tail) (by rw [hss]; simp)
    rw [hss, List.flatMap_append, hus, List.append_cancel_left_eq, List.flatMap_cons, hm] at h
    cases h

theorem exists_isToken (ht : t ∈ Token.read (ofQuery query).query)
    (h : Grammar.literalId? t = some n) : ∃ x : Place query, x.IsToken t := by
  obtain ⟨a, c, r, k, hsplit, hstart, hextent, htext⟩ := Token.mem_readFrom ht
  rw [Nat.zero_add] at hstart
  unfold Grammar.literalId? at h
  split at h
  · cases h
  rename_i hkind
  rw [not_not] at hkind
  simp only [Option.bind_eq_bind, Option.bind_eq_some_iff] at h
  obtain ⟨name, hname, -⟩ := h
  rw [hkind] at hextent
  have hquote := Token.isQuote_of_extent hextent
  have hps : ∀ p ∈ (Passage.split query).1, p.Sound := fun p hp => Passage.sound_of_mem_split hp
  rcases quote_of_textFrom hps hquote hsplit with ⟨ps, p, qs, hps, ha⟩ | ⟨b, hb⟩
  · let x : Place query := ⟨ps, p, qs, hps⟩
    rcases ha with ha | ha
    · exact ⟨x, x.isToken_of_start ht (by rw [hstart, ha]; rfl)⟩
    · -- a token that starts at a closing quote would have it in common with that of the place
      obtain ⟨u, hu, hustart, hustop, -⟩ := x.exists_token
      exact absurd (hstart.trans (ha ▸ x.length_upto_stop)) (x.start_ne_stop hu hustart hustop ht)
  · -- behind the literals there are no markers but escapes
    exfalso
    obtain ⟨s, hs⟩ := (List.dropLast_prefix (r.take k)).trans (List.take_prefix k r)
    have hr : Text.after? "[[literal:".toList r = some (name ++ s) := by
      rw [htext] at hname
      have hprefix : (r.take k).dropLast = "[[literal:".toList ++ name :=
        Text.after?_eq_some.1 hname
      rw [Text.after?_eq_some, ← List.append_assoc, ← hprefix, hs]
    have hnone := after?_of_escape (hb.trans (List.append_cons b c r))
    rw [hr] at hnone
    cases hnone

theorem literalId?_iff (ht : t ∈ Token.read (ofQuery query).query) :
    Grammar.literalId? t = some n ↔ ∃ x : Place query, x.number = n ∧ x.IsToken t := by
  constructor
  · intro h
    obtain ⟨x, hx⟩ := exists_isToken ht h
    rw [literalId?_of_isToken hx] at h
    exact ⟨x, Option.some.inj h, hx⟩
  · rintro ⟨x, rfl, hx⟩
    exact literalId?_of_isToken hx

/-- The numbers of the tokens go up. -/
theorem pairwise_literalId? (query : Text) :
    ((Token.read (ofQuery query).query).filterMap Grammar.literalId?).Pairwise (· < ·) := by
  rw [List.pairwise_filterMap]
  refine (Token.pairwise_readFrom 0 _).imp_of_mem ?_
  intro t u ht hu htu m hm n hn
  obtain ⟨x, rfl, -, -, hx⟩ := (literalId?_iff ht).1 hm
  obtain ⟨y, rfl, -, -, hy⟩ := (literalId?_iff hu).1 hn
  by_contra hle
  have hlead := Place.lead_length_le (Nat.le_of_not_lt hle)
  have := Token.start_lt_stop ht
  simp only [Place.start] at hx hy
  omega

end Number

end Deflated

end TypedMirror
