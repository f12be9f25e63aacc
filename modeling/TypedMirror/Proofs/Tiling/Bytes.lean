import TypedMirror.Proofs.Bytes
import TypedMirror.Proofs.Fitting
import TypedMirror.Proofs.Literals.Lexing
import TypedMirror.Query.Token.Bytes

/-!
# Tokens in bytes

The tokens of the bytes of a text are the tokens of the text, and so begin and end between its
characters.

* `extent_bytes` — a token takes all the bytes of the characters it takes;
* `readBytes_bytes` — the tokens of the bytes are the tokens of the text;
* `tokens_tile` — they are whole, in order and leave out white space only.
-/

namespace TypedMirror.Token

open Text (bytes bytesOf bytes_cons bytes_cons_ascii Coarse)

variable {c : Char} {r text : Text} {n : Nat}

/-- The number of bytes of the first `n` characters. -/
def reach (r : Text) (n : Nat) : Nat := (bytes (r.take n)).length

theorem reach_append (x y : Text) : reach (x ++ y) x.length = (bytes x).length := by
  rw [reach, List.take_left' rfl]

theorem reach_cons (hc : c.toNat < 0x80) (r : Text) (n : Nat) :
    reach (c :: r) (n + 1) = reach r n + 1 := by
  rw [reach, List.take_succ_cons, bytes_cons_ascii hc, List.length_cons, reach]

theorem reach_closed (hc : c.toNat < 0x80) (x y : Text) :
    reach (x ++ c :: y) (x.length + 1) = (bytes x).length + 1 := by
  have hlength : x.length + 1 = (x ++ [c]).length := by simp
  rw [List.append_cons, hlength, reach_append, Text.bytes_append, bytes_cons_ascii hc,
    List.length_append]
  rfl

theorem reach_length (r : Text) : reach r r.length = (bytes r).length := by
  rw [reach, List.take_length]

theorem bytes_split (r : Text) (n : Nat) : bytes r = bytes (r.take n) ++ bytes (r.drop n) := by
  rw [← Text.bytes_append, List.take_append_drop]

theorem reach_add (r : Text) (m n : Nat) : reach r (m + n) = reach r m + reach (r.drop m) n := by
  rw [reach, List.take_add, Text.bytes_append, List.length_append]
  rfl

theorem take_reach (r : Text) (n : Nat) : (bytes r).take (reach r n) = bytes (r.take n) := by
  rw [bytes_split r n]
  exact List.take_left' rfl

theorem drop_reach (r : Text) (n : Nat) : (bytes r).drop (reach r n) = bytes (r.drop n) := by
  rw [bytes_split r n]
  exact List.drop_left' rfl

theorem reach_takeWhile {p : Char → Bool} (hp : Coarse p) (r : Text) :
    ((bytes r).takeWhile p).length = reach r (r.takeWhile p).length := by
  rw [Text.takeWhile_bytes hp, reach, ← List.prefix_iff_eq_take.1 (List.takeWhile_prefix _)]

theorem reach_class {p : Char → Bool} (hp : Text.AsciiOnly p) (r : Text) :
    reach r (r.takeWhile p).length = (r.takeWhile p).length := by
  rw [← reach_takeWhile (Text.coarse_of_wide hp), hp.takeWhile]

theorem lineLength_bytes (r : Text) : lineLength (bytes r) = reach r (lineLength r) := by
  refine reach_takeWhile (Text.coarse_of_wide (b := true) fun c hc => ?_) r
  exact bne_iff_ne.2 (Text.ne_of_ascii (by decide) hc)

theorem opensDashComment_bytes (r : Text) : opensDashComment (bytes r) = opensDashComment r := by
  cases r with
  | nil => rfl
  | cons c r =>
    rcases Nat.lt_or_ge c.toNat 0x80 with hc | hc
    · rw [bytes_cons_ascii hc]
      rfl
    · obtain ⟨d, w, hbytes, hd, -⟩ := Text.bytesOf_wide hc
      obtain ⟨-, -, hblank, hcontrol⟩ := Text.classes_of_wide hc
      obtain ⟨-, -, hblank', hcontrol'⟩ := Text.classes_of_wide hd
      rw [bytes_cons, hbytes]
      simp [opensDashComment, hblank, hcontrol, hblank', hcontrol']

theorem commentExtent_bytes (c : Char) (r : Text) :
    commentExtent c (bytes r) = (commentExtent c r).map (reach r) := by
  cases h : commentExtent c r with
  | none =>
    rw [commentExtent_eq_none_iff] at h
    obtain ⟨hline, hdash, hblock⟩ := h
    refine commentExtent_eq_none_iff.2 ⟨hline, ?_, ?_⟩
    · intro after hc hr
      obtain ⟨after, rfl, rfl⟩ := (Text.bytes_eq_cons (by decide)).1 hr
      rw [opensDashComment_bytes]
      exact hdash after hc rfl
    · intro after hc hr
      obtain ⟨after, rfl, rfl⟩ := (Text.bytes_eq_cons (by decide)).1 hr
      exact hblock after hc rfl
  | some n =>
    unfold commentExtent at h
    split at h
    · cases h
      exact congrArg some (lineLength_bytes r)
    · rename_i after
      split at h
      · rename_i hopens
        cases h
        rw [bytes_cons_ascii (by decide), commentExtent, opensDashComment_bytes, if_pos hopens,
          lineLength_bytes, Option.map_some, Nat.add_comm 1, Nat.add_comm 1, reach_cons (by decide)]
      · cases h
    · rename_i after
      rw [bytes_cons_ascii (by decide), commentExtent, Option.map_some,
        Text.cut_bytes (by decide) (Text.ascii_of_all (by decide))]
      split at h
      · rename_i body rest hbody
        cases h
        have hafter := Text.cut_eq_some hbody
        rw [hbody, Option.map_some]
        dsimp only
        have hlength : body.length + 3 = (body ++ "*/".toList).length + 1 := by simp
        have hends : bytes "*/".toList = "*/".toList :=
          Text.bytes_of_ascii (Text.ascii_of_all (by decide))
        rw [hlength, reach_cons (by decide), hafter, reach_append, Text.bytes_append, hends]
        simp
      · rename_i hnone
        cases h
        rw [hnone, reach_cons (by decide), reach_length]
        rfl
    · cases h

theorem fractionExtent_bytes (r : Text) : fractionExtent (bytes r) = reach r (fractionExtent r) := by
  have hother : ∀ {t : Text}, (∀ s, t ≠ '.' :: s) → fractionExtent t = 0 := by
    intro t ht
    unfold fractionExtent
    split
    · rename_i s
      exact absurd rfl (ht s)
    · rfl
  by_cases hr : ∃ s, r = '.' :: s
  · obtain ⟨s, rfl⟩ := hr
    rw [bytes_cons_ascii (by decide), fractionExtent, fractionExtent,
      Text.asciiOnly_isDigit.takeWhile]
    split
    · rfl
    · rw [reach_cons (by decide), reach_class Text.asciiOnly_isDigit]
  · have hbytes : ∀ s, bytes r ≠ '.' :: s := by
      intro s hs
      obtain ⟨t, ht, -⟩ := (Text.bytes_eq_cons (by decide)).1 hs
      exact hr ⟨t, ht⟩
    rw [hother hbytes, hother fun s hs => hr ⟨s, hs⟩]
    rfl

theorem quoteExtent_bytes {quote : Char} (hquote : quote.toNat < 0x80) (r : Text) :
    quoteExtent quote (bytes r) = (quoteExtent quote r).map (reach r) := by
  rw [quoteExtent, Quoted.close_bytes hquote, quoteExtent, Option.map_map, Option.map_map]
  refine Option.map_congr fun p hp => ?_
  rw [Quoted.close_append hp]
  exact (reach_closed hquote p.1 p.2).symm

theorem backtickExtent_bytes (r : Text) :
    backtickExtent (bytes r) = (backtickExtent r).map (reach r) := by
  rw [backtickExtent, Text.cut_bytes (by decide) (Text.ascii_of_all (by decide)), backtickExtent,
    Option.map_map, Option.map_map]
  refine Option.map_congr fun p hp => ?_
  have hr : r = p.1 ++ backtick :: p.2 := by
    rw [Text.cut_eq_some hp, List.append_assoc]
    rfl
  rw [hr]
  exact (reach_closed (by decide) p.1 p.2).symm

theorem ascii_of_mem_operators : ∀ op ∈ operators, ∀ c ∈ op, c.toNat < 0x80 := by
  have hall : (operators.all fun op => op.all fun c => c.toNat < 0x80) = true := by decide
  exact fun op hop => Text.ascii_of_all (List.all_eq_true.1 hall op hop)

theorem isSome_after?_bytes (hc : c.toNat < 0x80) {op : Text} (hop : op ∈ operators) (r : Text) :
    (Text.after? op (c :: bytes r)).isSome = (Text.after? op (c :: r)).isSome := by
  rw [← bytes_cons_ascii hc, Text.after?_bytes (ascii_of_mem_operators op hop), Option.isSome_map]

theorem reach_operator {op : Text} (hop : op ∈ operators)
    (h : (Text.after? op (c :: r)).isSome = true) : reach r (op.length - 1) = op.length - 1 := by
  have hascii := ascii_of_mem_operators op hop
  obtain ⟨after, hafter⟩ := Option.isSome_iff_exists.1 h
  cases op with
  | nil => rfl
  | cons d op =>
    obtain ⟨rfl, rfl⟩ := List.cons.inj (Text.after?_eq_some.1 hafter)
    have hbytes := Text.bytes_of_ascii fun e he => hascii e (List.mem_cons_of_mem c he)
    exact (reach_append op after).trans (congrArg List.length hbytes)

/-- Behind an ASCII character, a token takes the bytes of the characters it takes. -/
theorem extent_bytes (hc : c.toNat < 0x80) (r : Text) :
    extent c (bytes r) = ((extent c r).1, reach r (extent c r).2) := by
  have hreach := reach_class Text.asciiOnly_isWordChar r
  have hfind : (operators.find? fun op => (Text.after? op (c :: bytes r)).isSome) =
      operators.find? fun op => (Text.after? op (c :: r)).isSome :=
    List.find?_congr fun op hop => isSome_after?_bytes hc hop r
  unfold extent
  rw [commentExtent_bytes]
  cases commentExtent c r with
  | some n => rfl
  | none =>
    dsimp only [Option.map_none]
    split
    · rw [Text.asciiOnly_isWordChar.takeWhile]
      have hdrop := drop_reach r (r.takeWhile Text.isWordChar).length
      rw [hreach] at hdrop
      split
      · rw [hdrop, fractionExtent_bytes, reach_add, hreach]
      · rw [hreach]
    split
    · rw [backtickExtent_bytes]
      cases backtickExtent r with
      | some n => rfl
      | none => exact congrArg (Prod.mk Kind.other) (reach_length r).symm
    split
    · rw [quoteExtent_bytes hc]
      cases quoteExtent c r with
      | some n => rfl
      | none => exact congrArg (Prod.mk Kind.other) (reach_length r).symm
    · rw [hfind]
      split
      · rename_i op hop
        have hsome : (Text.after? op (c :: r)).isSome = true := by
          have := List.find?_some hop
          exact this
        rw [reach_operator (List.mem_of_find?_eq_some hop) hsome]
      · split
        · rfl
        · rfl

/-- No rule applies to a character that is not ASCII, nor to a byte of one. -/
theorem extent_of_wide (hc : 0x80 ≤ c.toNat) (r : Text) : extent c r = (.other, 0) := by
  have hne : ∀ d : Char, d.toNat < 0x80 → c ≠ d := fun d hd => Text.ne_of_ascii hd hc
  have hcomment : commentExtent c r = none := commentExtent_eq_none_iff.2
    ⟨hne _ (by decide), fun _ h => absurd h (hne _ (by decide)),
      fun _ h => absurd h (hne _ (by decide))⟩
  have hoperator : (operators.find? fun op => (Text.after? op (c :: r)).isSome) = none := by
    rw [List.find?_eq_none]
    intro op hop hsome
    obtain ⟨after, hafter⟩ := Option.isSome_iff_exists.1 hsome
    cases op with
    | nil => exact absurd hop (by decide)
    | cons d op =>
      obtain ⟨rfl, -⟩ := List.cons.inj (Text.after?_eq_some.1 hafter)
      exact Nat.not_lt_of_le hc (ascii_of_mem_operators _ hop c List.mem_cons_self)
  have hpunct : [',', '.', '(', ')', ';', '*'].contains c = false := by
    simp [hne]
  unfold extent
  rw [hcomment, (Text.classes_of_wide hc).1, if_neg (hne backtick (by decide)),
    if_neg (not_or.2 ⟨hne _ (by decide), hne _ (by decide)⟩), hoperator, hpunct]
  rfl

theorem byteExtent_ascii (hc : c.toNat < 0x80) (r : Text) : byteExtent c r = extent c r := by
  unfold byteExtent
  split
  · rename_i h
    rw [h, Text.width, if_pos hc]
  · rfl

/-- A token takes all the bytes of the characters it takes. -/
theorem byteExtent_bytes {d : Char} {w : Text} (h : bytesOf c = d :: w) (r : Text) :
    byteExtent d (w ++ bytes r) = ((extent c r).1, w.length + reach r (extent c r).2) := by
  rcases Nat.lt_or_ge c.toNat 0x80 with hc | hc
  · rw [Text.bytesOf_ascii hc] at h
    obtain ⟨rfl, rfl⟩ := List.cons.inj h
    rw [byteExtent_ascii hc, List.nil_append, extent_bytes hc, List.length_nil, Nat.zero_add]
  · obtain ⟨e, v, hbytes, he, -, hwidth⟩ := Text.bytesOf_wide hc
    rw [hbytes] at h
    obtain ⟨rfl, rfl⟩ := List.cons.inj h
    rw [byteExtent, extent_of_wide he, extent_of_wide hc, hwidth]
    rfl

/-! ## The tokens of the bytes -/

theorem readBytesFrom_blank {start : Nat} (hc : Text.isAsciiBlank c = true) (r : Text) :
    readBytesFrom start (c :: r) = readBytesFrom (start + 1) r := by
  rw [readBytesFrom, if_pos hc]

theorem readBytesFrom_token {start : Nat} {k : Kind} (hc : Text.isAsciiBlank c = false)
    (h : byteExtent c r = (k, n)) : readBytesFrom start (c :: r) =
      ⟨k, c :: r.take n, start⟩ :: readBytesFrom (start + (c :: r.take n).length) (r.drop n) := by
  rw [readBytesFrom, if_neg (Bool.eq_false_iff.1 hc), h]

theorem readBytesFrom_bytes (a : Text) {start : Nat} (hstart : start = a.length) (t : Text) :
    readBytesFrom (bytes a).length (bytes t) = (readFrom start t).map (inBytes (a ++ t)) := by
  fun_induction readFrom start t generalizing a with
  | case1 =>
    rw [Text.bytes_nil, readBytesFrom]
    rfl
  | case2 start c r hc ih =>
    have hascii := Text.asciiOnly_isAsciiBlank.lt hc
    have hlength : (bytes (a ++ [c])).length = (bytes a).length + 1 := by
      rw [Text.bytes_append, bytes_cons_ascii hascii, List.length_append]
      rfl
    have := ih (a ++ [c]) (by simp [hstart])
    rw [hlength, ← List.append_cons] at this
    rw [bytes_cons_ascii hascii, readBytesFrom_blank hc, this]
  | case3 start c r hc e text ih =>
    obtain ⟨d, w, hbytes⟩ := Text.exists_bytesOf c
    have hblank : Text.isAsciiBlank d = false :=
      (Text.asciiOnly_isAsciiBlank.first_byte hbytes).trans (Bool.eq_false_iff.2 hc)
    have htake : d :: (w ++ bytes r).take (w.length + reach r e.2) = bytes text := by
      rw [List.take_length_add_append, take_reach, bytes_cons, hbytes]
      rfl
    have hdrop : (w ++ bytes r).drop (w.length + reach r e.2) = bytes (r.drop e.2) := by
      rw [List.drop_length_add_append, drop_reach]
    have hsplit : a ++ c :: r = (a ++ text) ++ r.drop e.2 := by
      rw [List.append_assoc]
      exact congrArg (a ++ c :: ·) (List.take_append_drop _ _).symm
    have hthis : inBytes (a ++ c :: r) ⟨e.1, text, start⟩ = ⟨e.1, bytes text, (bytes a).length⟩ := by
      rw [inBytes, List.take_left' hstart.symm, Text.length_bytes]
    have hrest := ih (a ++ text) (by rw [List.length_append, hstart])
    rw [Text.bytes_append, List.length_append, ← hsplit] at hrest
    rw [bytes_cons, hbytes, List.cons_append, readBytesFrom_token hblank (byteExtent_bytes hbytes r),
      htake, hdrop, List.map_cons, hthis, hrest]

/-- The tokens of the bytes of a text are the tokens of the text. -/
theorem readBytes_bytes (t : Text) : readBytes (bytes t) = (read t).map (inBytes t) :=
  readBytesFrom_bytes [] rfl t

/-! ## The tokens tile the bytes -/

/-- What a token of the bytes of `text` is: whole characters from their place in the text, quoted at
both ends or a whole word, as its kind says. -/
structure Whole (text : Text) (t : Token) : Prop where
  start_lt_stop : t.start < t.stop
  slice : t.text = (bytes text).slice t.start t.stop
  boundaries : ∃ a x b : Text, text = a ++ (x ++ b) ∧ t.start = (bytes a).length ∧
    t.stop = (bytes (a ++ x)).length ∧ t.text = bytes x
  literal : t.kind = .literal → ∃ quote contents, (quote = '\'' ∨ quote = '"') ∧
    t.text = quote :: contents ++ [quote]
  quotedName : t.kind = .quotedName → ∃ name, t.text = backtick :: name ++ [backtick]
  word : t.kind = .word → (∀ c ∈ t.text, Text.isWordChar c = true) ∧
    (∃ c ∈ t.text, c.isDigit = false) ∧ ∀ c ∈ (bytes text)[t.stop]?, Text.isWordChar c = false

theorem quoteExtent_of_extent (h : extent c r = (.literal, n)) : quoteExtent c r = some n := by
  unfold extent at h
  dsimp only at h
  repeat' split at h
  all_goals cases h
  assumption

theorem literal_of_extent (h : extent c r = (.literal, n)) :
    ∃ contents, c :: r.take n = c :: contents ++ [c] := by
  obtain ⟨⟨contents, rest⟩, hclose, rfl⟩ := Option.map_eq_some_iff.1 (quoteExtent_of_extent h)
  refine ⟨contents, congrArg (c :: ·) ?_⟩
  rw [Quoted.close_append hclose, List.append_cons]
  exact List.take_left' (by simp)

theorem bytes_enclosed {quote : Char} (hquote : quote.toNat < 0x80) (x : Text) :
    bytes (quote :: x ++ [quote]) = quote :: bytes x ++ [quote] := by
  rw [Text.bytes_append, bytes_cons_ascii hquote, bytes_cons_ascii hquote]
  rfl

theorem exists_place {t : Token} (h : t ∈ read text) : ∃ a c r n,
    text = a ++ (t.text ++ r.drop n) ∧ t.start = a.length ∧ t.text = c :: r.take n ∧
      extent c r = (t.kind, n) := by
  obtain ⟨a, c, r, n, rfl, hstart, hextent, htext⟩ := mem_readFrom h
  refine ⟨a, c, r, n, ?_, hstart.trans (Nat.zero_add _), htext, hextent⟩
  rw [htext]
  exact congrArg (a ++ c :: ·) (List.take_append_drop n r).symm

theorem start_inBytes (t : Token) : (inBytes text t).start = reach text t.start := by
  rw [inBytes, ← Text.length_bytes, reach]

theorem stop_inBytes {t : Token} (h : t ∈ read text) :
    (inBytes text t).stop = reach text t.stop := by
  obtain ⟨a, c, r, n, rfl, hstart, -, -⟩ := exists_place h
  have hstop : t.stop = (a ++ t.text).length := by rw [stop, hstart, List.length_append]
  rw [stop, start_inBytes, hstart, hstop, reach_append, ← List.append_assoc, reach_append,
    Text.bytes_append, List.length_append]
  rfl

theorem whole_inBytes {t : Token} (h : t ∈ read text) : (inBytes text t).Whole text := by
  have hstop := stop_inBytes h
  have hstart : (inBytes text t).start = reach text t.start := start_inBytes t
  obtain ⟨a, c, r, n, rfl, ha, htext, hextent⟩ := exists_place h
  have hx : t.stop = (a ++ t.text).length := by rw [stop, ha, List.length_append]
  rw [ha, reach_append] at hstart
  rw [hx, ← List.append_assoc, reach_append, List.append_assoc] at hstop
  have hfits : Fits ⟨t.kind, c :: r.take n, t.start⟩ (r.drop n) := fits_of_extent hextent
  rw [← htext] at hfits
  refine ⟨?_, ?_, ⟨a, t.text, r.drop n, rfl, hstart, hstop, rfl⟩, ?_, ?_, ?_⟩
  · obtain ⟨d, w, hbytes⟩ := Text.exists_bytesOf c
    rw [hstart, hstop, htext, Text.bytes_append, bytes_cons, hbytes, List.length_append,
      List.length_append, List.length_cons]
    omega
  · rw [hstart, hstop]
    simp only [Text.bytes_append, List.length_append]
    exact (Grammar.slice_append _ _ _).symm
  · intro (hk : t.kind = .literal)
    rw [hk] at hextent
    obtain ⟨contents, hcontents⟩ := literal_of_extent hextent
    have hquote := eq_of_isQuote (isQuote_of_extent hextent)
    have hascii : c.toNat < 0x80 := by
      rcases hquote with rfl | rfl
      · decide
      · decide
    refine ⟨c, bytes contents, hquote, ?_⟩
    rw [← bytes_enclosed hascii, ← hcontents, ← htext]
    rfl
  · intro hk
    obtain ⟨name, hname⟩ := hfits.quotedName hk
    refine ⟨bytes name, ?_⟩
    rw [← bytes_enclosed (by decide), ← hname]
    rfl
  · intro hk
    obtain ⟨-, hall, hnext⟩ := hfits.word hk
    have hdigits := (name_of_extent hextent).1 hk
    rw [← htext] at hdigits
    have hsame : (inBytes (a ++ (t.text ++ r.drop n)) t).text = t.text :=
      Text.bytes_of_ascii fun d hd => Text.asciiOnly_isWordChar.lt (hall d hd)
    rw [hsame, hstop, ← List.append_assoc, Text.bytes_append _ (r.drop n),
      List.getElem?_append_right (Nat.le_refl _), Nat.sub_self]
    refine ⟨hall, by simpa using hdigits, ?_⟩
    intro d hd
    cases hrest : r.drop n with
    | nil =>
      rw [hrest] at hd
      cases hd
    | cons e s =>
      obtain ⟨f, w, hbytes⟩ := Text.exists_bytesOf e
      rw [hrest, bytes_cons, hbytes] at hd
      obtain rfl : f = d := Option.some.inj hd
      rw [Text.asciiOnly_isWordChar.first_byte hbytes]
      exact hnext e (by rw [hrest]; rfl)

theorem reach_mono (r : Text) {m n : Nat} (h : m ≤ n) : reach r m ≤ reach r n := by
  obtain ⟨k, rfl⟩ := Nat.exists_eq_add_of_le h
  rw [reach_add]
  exact Nat.le_add_right _ _

/-- Read byte by byte, a text has the tokens it has read character by character.  They are whole
characters, one behind the other, and what is in none of them is white space. -/
theorem tokens_tile (text : Text) :
    readBytes (bytes text) = (read text).map (inBytes text) ∧
      (∀ t ∈ readBytes (bytes text), t.Whole text) ∧
      ((readBytes (bytes text)).Pairwise fun t u => t.stop ≤ u.start) ∧
      ∀ i c, (bytes text)[i]? = some c →
        (∀ t ∈ readBytes (bytes text), ¬(t.start ≤ i ∧ i < t.stop)) →
        Text.isAsciiBlank c = true := by
  rw [readBytes_bytes]
  refine ⟨rfl, ?_, ?_, ?_⟩
  · intro t ht
    obtain ⟨u, hu, rfl⟩ := List.mem_map.1 ht
    exact whole_inBytes hu
  · rw [List.pairwise_map]
    refine (pairwise_readFrom 0 text).imp_of_mem fun ht _ htu => ?_
    rw [stop_inBytes ht, start_inBytes]
    exact reach_mono text htu
  · intro i d hd houtside
    obtain ⟨a, c, r, rfl, hle, hlt, hmem⟩ := Text.exists_char_at hd
    cases hblank : Text.isAsciiBlank c with
    | true =>
      rw [Text.bytesOf_ascii (Text.asciiOnly_isAsciiBlank.lt hblank), List.mem_singleton] at hmem
      rw [hmem, hblank]
    | false =>
      obtain ⟨t, ht, hstart, hstop⟩ := exists_token_at 0 _ a c r rfl hblank
      rw [Nat.zero_add] at hstart hstop
      refine absurd ⟨?_, ?_⟩ (houtside _ (List.mem_map_of_mem ht))
      · rw [start_inBytes]
        refine Nat.le_trans (reach_mono _ hstart) ?_
        rw [reach_append]
        exact hle
      · rw [stop_inBytes ht]
        have hlength : (a ++ [c]).length ≤ t.stop := by
          rw [List.length_append]
          exact hstop
        have hreach : reach (a ++ c :: r) (a ++ [c]).length = (bytes (a ++ [c])).length := by
          rw [List.append_cons, reach_append]
        exact Nat.lt_of_lt_of_le (hreach ▸ hlt) (reach_mono _ hlength)

end TypedMirror.Token
