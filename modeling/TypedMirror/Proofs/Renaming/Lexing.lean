import Mathlib.Data.List.Find
import TypedMirror.Proofs.Rendering
import TypedMirror.Proofs.Renaming.Deflated
import TypedMirror.Proofs.Renaming.Phrases

/-!
# Tokens around a name

In front of a name stands white space, a comma or the name's own backtick.  No token reaches over
such a character unless it starts with it, so the tokens before a name do not depend on the name,
nor on what follows it.

* `extent_break` — a token that ends before a break;
* `exists_cut` — the tokens before a name, and the name with another one in its place;
* `exists_weave` — the tokens of a text with other names between its gaps.
-/

namespace TypedMirror

/-- A word that is read as a name. -/
structure Text.IsName (n : Text) : Prop extends Text.IsWord n where
  digits : n.all Char.isDigit = false
  free : Grammar.isReserved ⟨.word, n, 0⟩ = false

namespace Token

open List (Forall₂)

/-! ## Breaks -/

/-- White space, a comma or a backtick. -/
def isBreak (z : Char) : Bool := Text.isAsciiBlank z || z == ',' || z == backtick

section Break

variable {c z : Char} {a u : Text} {k : Kind} {n : Nat}

theorem isBreak_of_isAsciiBlank (h : Text.isAsciiBlank z = true) : isBreak z = true := by
  unfold isBreak
  rw [h]
  rfl

/-- No break belongs to a word or an operator, nor is it the second character of a comment. -/
theorem isBreak_spec (h : isBreak z = true) : Text.isWordChar z = false ∧
    z ≠ '-' ∧ z ≠ '*' ∧ z ≠ '.' ∧ ∀ op ∈ operators, z ∉ op := by
  unfold isBreak Text.isAsciiBlank at h
  simp only [Bool.or_eq_true, beq_iff_eq] at h
  rcases h with (((((rfl | rfl) | rfl) | rfl) | rfl) | rfl) | rfl <;> decide

theorem takeWhile_break {p : Char → Bool} (hz : p z = false) (a u : Text) :
    (a ++ z :: u).takeWhile p = a.takeWhile p := by
  have hnil : (z :: u).takeWhile p = [] := List.takeWhile_cons_of_neg (by simp [hz])
  rw [List.takeWhile_append, hnil, List.append_nil]
  split
  · rename_i hlength
    exact ((List.takeWhile_prefix p).eq_of_length hlength).symm
  · rfl

theorem fractionExtent_break (hz : isBreak z = true) (a u u' : Text) :
    fractionExtent (a ++ z :: u) = fractionExtent (a ++ z :: u') := by
  obtain ⟨hword, -, -, hdot, -⟩ := isBreak_spec hz
  have hdigit : z.isDigit = false := by
    simp only [Text.isWordChar, Char.isAlphanum, Bool.or_eq_false_iff] at hword
    exact hword.1.1.2
  have hpoint : ∀ r : Text, fractionExtent ('.' :: r) =
      if (r.takeWhile Char.isDigit).isEmpty then 0 else (r.takeWhile Char.isDigit).length + 1 :=
    fun _ => rfl
  have hnone : ∀ {d : Char} (r : Text), d ≠ '.' → fractionExtent (d :: r) = 0 := by
    intro d r hd
    unfold fractionExtent
    simp [hd]
  cases a with
  | nil => rw [List.nil_append, List.nil_append, hnone u hdot, hnone u' hdot]
  | cons d a =>
    rw [List.cons_append, List.cons_append]
    by_cases hd : d = '.'
    · rw [hd, hpoint, hpoint, takeWhile_break hdigit, takeWhile_break hdigit]
    · rw [hnone _ hd, hnone _ hd]

theorem commentExtent_eq_none_iff {r : Text} : commentExtent c r = none ↔ c ≠ '#' ∧
    (∀ after, c = '-' → r = '-' :: after → opensDashComment after = false) ∧
      ∀ after, c = '/' → r ≠ '*' :: after := by
  unfold commentExtent
  split
  · simp
  · rename_i after
    simp only [ite_eq_right_iff, reduceCtorEq, imp_false, Bool.not_eq_true]
    constructor
    · rintro h
      refine ⟨by decide, ?_, by rintro _ ⟨⟩⟩
      rintro _ - ⟨⟩
      exact h
    · exact fun h => h.2.1 after trivial rfl
  · split
    · simp
    · simp
  · rename_i hline hdash hblock
    simp only [true_iff]
    exact ⟨hline, fun after hc hr => absurd hr (hdash after hc), hblock⟩

theorem commentExtent_break (hz : isBreak z = true) (h : commentExtent c (a ++ z :: u) = none)
    (u' : Text) : commentExtent c (a ++ z :: u') = none := by
  obtain ⟨-, hdash, hstar, -, -⟩ := isBreak_spec hz
  rw [commentExtent_eq_none_iff] at h ⊢
  obtain ⟨hline, hdashes, hblock⟩ := h
  refine ⟨hline, ?_, ?_⟩
  · intro after hc hr
    cases a with
    | nil => exact absurd (List.cons.inj hr).1 hdash
    | cons d a =>
      obtain ⟨rfl, rfl⟩ := List.cons.inj hr
      have := hdashes (a ++ z :: u) hc rfl
      cases a with
      | nil => exact this
      | cons e a => exact this
  · intro after hc hr
    cases a with
    | nil => exact absurd (List.cons.inj hr).1 hstar
    | cons d a =>
      obtain ⟨rfl, rfl⟩ := List.cons.inj hr
      exact hblock (a ++ z :: u) hc rfl

theorem isSome_after?_break {op : Text} (hz : z ∉ op) (a u u' : Text) :
    (Text.after? op (a ++ z :: u)).isSome = (Text.after? op (a ++ z :: u')).isSome := by
  induction a generalizing op with
  | nil =>
    cases op with
    | nil => rfl
    | cons b op =>
      have hne : b ≠ z := fun h => hz (h ▸ List.mem_cons_self)
      rw [List.nil_append, List.nil_append, Text.after?_cons_of_ne hne, Text.after?_cons_of_ne hne]
  | cons d a ih =>
    cases op with
    | nil => rfl
    | cons b op =>
      rw [List.cons_append, List.cons_append, Text.after?, Text.after?]
      split
      · exact ih fun h => hz (List.mem_cons_of_mem b h)
      · rfl

/-! ### Closed tokens -/

theorem not_mem_of_cut {b : Char} {t x y : Text} (h : Text.cut [b] t = some (x, y)) : b ∉ x := by
  induction t generalizing x with
  | nil => cases h
  | cons d t ih =>
    cases hafter : Text.after? [b] (d :: t) with
    | some rest =>
      rw [Text.cut_of_after? hafter] at h
      cases h
      exact List.not_mem_nil
    | none =>
      rw [Text.cut_cons hafter] at h
      obtain ⟨⟨x, y⟩, hcut, heq⟩ := Option.map_eq_some_iff.1 h
      cases heq
      rw [List.mem_cons, not_or]
      refine ⟨?_, ih hcut⟩
      rintro rfl
      rw [Text.after?, if_pos rfl] at hafter
      cases hafter

theorem cut_of_not_mem {b : Char} {x : Text} (h : b ∉ x) (y : Text) :
    Text.cut [b] (x ++ b :: y) = some (x, y) := by
  have hcut : Text.cut [b] (b :: y) = some ([], y) :=
    Text.cut_of_after? (Text.after?_eq_some.2 rfl)
  rw [Text.cut_append h, hcut, Option.map_some, List.append_nil]

theorem backtickExtent_eq_some {r : Text} : backtickExtent r = some n ↔
    ∃ x y, r = x ++ backtick :: y ∧ backtick ∉ x ∧ n = x.length + 1 := by
  constructor
  · intro h
    obtain ⟨⟨x, y⟩, hcut, rfl⟩ := Option.map_eq_some_iff.1 h
    have hr := Text.cut_eq_some hcut
    rw [List.append_assoc] at hr
    exact ⟨x, y, hr, not_mem_of_cut hcut, rfl⟩
  · rintro ⟨x, y, rfl, hx, rfl⟩
    exact Option.map_eq_some_iff.2 ⟨(x, y), cut_of_not_mem hx y, rfl⟩

/-- The end is at a character behind which nothing is looked at. -/
def Closes (find : Text → Option Nat) : Prop :=
  ∀ r n, find r = some n → ∃ x b y, r = x ++ b :: y ∧ n = x.length + 1 ∧
    ∀ y', find (x ++ b :: y') = some n

theorem closes_backtickExtent : Closes backtickExtent := by
  intro r n h
  obtain ⟨x, y, rfl, hx, rfl⟩ := backtickExtent_eq_some.1 h
  exact ⟨x, backtick, y, rfl, rfl, fun y' => backtickExtent_eq_some.2 ⟨x, y', rfl, hx, rfl⟩⟩

theorem closes_quoteExtent (quote : Char) : Closes (quoteExtent quote) := by
  intro r n h
  obtain ⟨⟨x, y⟩, hclose, rfl⟩ := Option.map_eq_some_iff.1 h
  refine ⟨x, quote, y, Quoted.close_append hclose, rfl, ?_⟩
  intro y'
  have := Quoted.close_append_right (Quoted.close_contents hclose) y'
  rw [List.append_assoc] at this
  exact Option.map_eq_some_iff.2 ⟨(x, y'), this, rfl⟩

theorem closed_break {find : Text → Option Nat} (hfind : Closes find) {kind : Kind}
    (h : (match find (a ++ z :: u) with
      | some m => (kind, m)
      | none => (.other, (a ++ z :: u).length)) = (k, n)) (hn : n ≤ a.length) (u' : Text) :
    (match find (a ++ z :: u') with
      | some m => (kind, m)
      | none => (.other, (a ++ z :: u').length)) = (k, n) := by
  split at h
  · rename_i m hm
    cases h
    obtain ⟨x, b, y, hsplit, rfl, hclosed⟩ := hfind _ _ hm
    -- the closing character stands before the break
    obtain ⟨y, rfl⟩ : x ++ [b] <+: a := by
      refine List.prefix_of_prefix_length_le ⟨y, ?_⟩ (List.prefix_append a (z :: u)) (by simpa)
      rw [hsplit, List.append_assoc]
      rfl
    have := hclosed (y ++ z :: u')
    simp only [List.append_assoc, List.cons_append, List.nil_append]
    rw [this]
  · cases h
    rw [List.length_append, List.length_cons] at hn
    omega

/-- A token that ends before a break is the same whatever stands behind the break. -/
theorem extent_break (hz : isBreak z = true) (h : extent c (a ++ z :: u) = (k, n))
    (hn : n ≤ a.length) (hk : k ≠ .comment) (u' : Text) : extent c (a ++ z :: u') = (k, n) := by
  obtain ⟨hword, -, -, -, hoperator⟩ := isBreak_spec hz
  unfold extent at h ⊢
  split at h
  · cases h
    exact absurd rfl hk
  rename_i hcomment
  rw [commentExtent_break hz hcomment u']
  dsimp only at h ⊢
  split at h
  · rename_i hc
    have hmore : (a.takeWhile Text.isWordChar).length ≤ a.length :=
      (List.takeWhile_prefix _).length_le
    rw [if_pos hc, takeWhile_break hword, List.drop_append_of_le_length hmore,
      fractionExtent_break hz _ u' u]
    rw [takeWhile_break hword, List.drop_append_of_le_length hmore] at h
    exact h
  rename_i hc
  rw [if_neg hc]
  split at h
  · rename_i hback
    rw [if_pos hback]
    exact closed_break closes_backtickExtent h hn u'
  rename_i hback
  rw [if_neg hback]
  split at h
  · rename_i hquote
    rw [if_pos hquote]
    exact closed_break (closes_quoteExtent c) h hn u'
  rename_i hquote
  rw [if_neg hquote]
  have hfind : operators.find? (fun op => (Text.after? op (c :: (a ++ z :: u'))).isSome) =
      operators.find? fun op => (Text.after? op (c :: (a ++ z :: u))).isSome :=
    List.find?_congr fun op hop => isSome_after?_break (hoperator op hop) (c :: a) u' u
  rw [hfind]
  exact h

end Break

/-! ## Token by token -/

section Read

variable {start stop : Nat} {c : Char} {blanks text r u : Text} {k : Kind} {t : Token}
  {ts : List Token}

theorem readFrom_blanks (hb : ∀ c ∈ blanks, Text.isAsciiBlank c = true) (start : Nat) (u : Text) :
    readFrom start (blanks ++ u) = readFrom (start + blanks.length) u := by
  induction blanks generalizing start with
  | nil => rfl
  | cons c blanks ih =>
    rw [List.cons_append, readFrom, if_pos (hb c List.mem_cons_self),
      ih fun d hd => hb d (List.mem_cons_of_mem c hd), List.length_cons]
    congr 1
    omega

theorem readFrom_token (hc : Text.isAsciiBlank c = false) (h : extent c (r ++ u) = (k, r.length))
    (start : Nat) : readFrom start (c :: (r ++ u)) =
      ⟨k, c :: r, start⟩ :: readFrom (start + (c :: r).length) u := by
  rw [readFrom, if_neg (by simp [hc]), h]
  dsimp only
  rw [List.take_left' rfl, List.drop_left' rfl]

/-- The first token of a text, and white space in front of it. -/
theorem exists_of_readFrom (h : readFrom start text = t :: ts) : ∃ blanks c r n,
    text = blanks ++ c :: r ∧ (∀ c ∈ blanks, Text.isAsciiBlank c = true) ∧
      Text.isAsciiBlank c = false ∧ extent c r = (t.kind, n) ∧
      t = ⟨t.kind, c :: r.take n, start + blanks.length⟩ ∧ readFrom t.stop (r.drop n) = ts := by
  fun_induction readFrom start text with
  | case1 => cases h
  | case2 start d rest hd ih =>
    obtain ⟨blanks, c, r, n, rfl, hb, hc, hextent, ht, hrest⟩ := ih h
    refine ⟨d :: blanks, c, r, n, rfl, List.forall_mem_cons.2 ⟨hd, hb⟩, hc, hextent, ?_, hrest⟩
    rw [List.length_cons, Nat.add_comm blanks.length, ← Nat.add_assoc]
    exact ht
  | case3 start d rest hd e text ih =>
    obtain ⟨rfl, rfl⟩ := List.cons.inj h
    exact ⟨[], d, rest, e.2, rfl, by simp, by simpa using hd, rfl, rfl, rfl⟩

/-- The first of several tokens. -/
theorem exists_of_readFrom_more (h : readFrom start text = t :: ts) (hts : ts ≠ []) :
    ∃ blanks c r u, text = blanks ++ c :: (r ++ u) ∧ (∀ c ∈ blanks, Text.isAsciiBlank c = true) ∧
      Text.isAsciiBlank c = false ∧ extent c (r ++ u) = (t.kind, r.length) ∧
      t = ⟨t.kind, c :: r, start + blanks.length⟩ ∧ readFrom t.stop u = ts := by
  obtain ⟨blanks, c, r, n, rfl, hb, hc, hextent, ht, hrest⟩ := exists_of_readFrom h
  have hlength : n < r.length := by
    by_contra hle
    rw [List.drop_eq_nil_of_le (Nat.le_of_not_lt hle), readFrom] at hrest
    exact hts hrest.symm
  refine ⟨blanks, c, r.take n, r.drop n, ?_, hb, hc, ?_, ht, hrest⟩
  · rw [List.take_append_drop]
  · rw [List.take_append_drop, hextent, List.length_take, Nat.min_eq_left (Nat.le_of_lt hlength)]

theorem readFrom_alike (start start' : Nat) (text : Text) :
    Forall₂ Token.Alike (readFrom start text) (readFrom start' text) := by
  fun_induction readFrom start text generalizing start' with
  | case1 =>
    rw [readFrom]
    exact .nil
  | case2 start c r hc ih =>
    rw [readFrom, if_pos hc]
    exact ih (start' + 1)
  | case3 start c r hc e text ih =>
    rw [readFrom, if_neg hc]
    exact .cons (.intro _ _ _ _) (ih _)

end Read

/-! ## Names -/

section Name

open Grammar (isIdentifier namePosition)

variable {start : Nat} {c : Char} {r text name b : Text} {n : Nat} {t : Token} {ts : List Token}

/-- A word is not made of digits only, and a quoted name stands between backticks. -/
theorem name_of_extent {k : Kind} (h : extent c r = (k, n)) :
    (k = .word → (c :: r.take n).all Char.isDigit = false) ∧
      (k = .quotedName → c = backtick ∧ backtickExtent r = some n) := by
  have hother : ∀ {k : Kind}, k ≠ .word ∧ k ≠ .quotedName →
      (k = .word → (c :: r.take n).all Char.isDigit = false) ∧
        (k = .quotedName → c = backtick ∧ backtickExtent r = some n) := fun hk =>
    ⟨fun hword => absurd hword hk.1, fun hquoted => absurd hquoted hk.2⟩
  unfold extent at h
  split at h
  · cases h
    exact hother (by decide)
  split at h
  · dsimp only at h
    split at h
    · cases h
      exact hother (by decide)
    · rename_i hdigits
      cases h
      rw [← List.prefix_iff_eq_take.1 (List.takeWhile_prefix _)]
      exact ⟨fun _ => Bool.eq_false_iff.2 hdigits, by rintro ⟨⟩⟩
  split at h
  · rename_i hc
    split at h
    · rename_i hn
      cases h
      exact ⟨by rintro ⟨⟩, fun _ => ⟨hc, hn⟩⟩
    · cases h
      exact hother (by decide)
  split at h
  · split at h
    · cases h
      exact hother (by decide)
    · cases h
      exact hother (by decide)
  split at h
  · cases h
    exact hother (by decide)
  · split at h
    · cases h
      exact hother (by decide)
    · cases h
      exact hother (by decide)

/-- A name is a token, if no character of it stands behind it. -/
theorem readFrom_word (hname : name.IsName) (hb : ∀ c ∈ b.head?, Text.isWordChar c = false)
    (start : Nat) : readFrom start (name ++ b) =
      ⟨.word, name, start⟩ :: readFrom (start + name.length) b := by
  obtain ⟨c, r, rfl⟩ := List.exists_cons_of_ne_nil hname.ne_nil
  have hc := hname.isWordChar c List.mem_cons_self
  have hr : ∀ d ∈ r, Text.isWordChar d = true := fun d hd =>
    hname.isWordChar d (List.mem_cons_of_mem c hd)
  refine readFrom_token ?_ ?_ start
  · rw [Bool.eq_false_iff]
    intro hblank
    have := (isBreak_spec (isBreak_of_isAsciiBlank hblank)).1
    rw [hc] at this
    cases this
  · have hcomment : commentExtent c (r ++ b) = none :=
      commentExtent_eq_none_iff.2 ⟨Text.ne_of_isWordChar hc (by decide),
        fun _ hdash => absurd hdash (Text.ne_of_isWordChar hc (by decide)),
        fun _ hslash => absurd hslash (Text.ne_of_isWordChar hc (by decide))⟩
    have hmore : (r ++ b).takeWhile Text.isWordChar = r := by
      rw [List.takeWhile_append_of_pos hr]
      cases b with
      | nil => rw [List.takeWhile_nil, List.append_nil]
      | cons d b => rw [List.takeWhile_cons_of_neg (by simp [hb d rfl]), List.append_nil]
    unfold extent
    rw [hcomment]
    dsimp only
    rw [if_pos hc, hmore, if_neg (by rw [hname.digits]; decide)]

theorem readFrom_quotedName (hname : backtick ∉ name) (b : Text) (start : Nat) :
    readFrom start (backtick :: (name ++ backtick :: b)) =
      ⟨.quotedName, backtick :: (name ++ [backtick]), start⟩ ::
        readFrom (start + (name.length + 2)) b := by
  have hextent : extent backtick ((name ++ [backtick]) ++ b) =
      (.quotedName, (name ++ [backtick]).length) := by
    have hfind : backtickExtent ((name ++ [backtick]) ++ b) = some (name ++ [backtick]).length :=
      backtickExtent_eq_some.2 ⟨name, b, by simp, hname, by simp⟩
    have hcomment : ∀ r, commentExtent backtick r = none := fun _ => rfl
    unfold extent
    rw [hcomment, hfind]
    rfl
  have := readFrom_token (by decide) hextent start
  simpa using this

/-- A name, with the backticks around it if there are any, and another name in its place. -/
theorem exists_name (h : readFrom start text = t :: ts) (ht : isIdentifier t = true) :
    ∃ blanks w b, text = blanks ++ (w ++ (t.name ++ (w ++ b))) ∧
      (∀ c ∈ blanks, Text.isAsciiBlank c = true) ∧ (w = [] ∧ t.name.IsName ∨ w = [backtick]) ∧
      namePosition t = start + blanks.length + w.length ∧
      readFrom (namePosition t + t.name.length + w.length) b = ts ∧
      ∀ n b', (n = t.name ∨ n.IsName) → b'.head? = b.head? → ∀ start', ∃ t' stop',
        readFrom start' (w ++ (n ++ (w ++ b'))) = t' :: readFrom stop' b' ∧
          isIdentifier t' = true ∧ t'.name = n := by
  obtain ⟨blanks, c, r, n, rfl, hb, -, hextent, htoken, hrest⟩ := exists_of_readFrom h
  clear h
  rcases Grammar.kind_of_isIdentifier ht with ⟨hkind, hfree⟩ | hkind
  · rw [hkind] at hextent htoken
    subst htoken
    have hfits : Fits ⟨.word, c :: r.take n, start + blanks.length⟩ (r.drop n) :=
      fits_of_extent hextent
    obtain ⟨hne, hall, hnext⟩ := hfits.word rfl
    have hname : Text.IsName (c :: r.take n) := ⟨⟨hne, hall⟩, (name_of_extent hextent).1 rfl, hfree⟩
    refine ⟨blanks, [], r.drop n, ?_, hb, .inl ⟨rfl, hname⟩, rfl, hrest, ?_⟩
    · show blanks ++ c :: r = blanks ++ (c :: r.take n ++ r.drop n)
      rw [List.cons_append, List.take_append_drop]
    intro name b' hsuits hhead start'
    have hname' : name.IsName := by
      rcases hsuits with rfl | hsuits
      · exact hname
      · exact hsuits
    have hbehind : ∀ c ∈ b'.head?, Text.isWordChar c = false := by
      rw [hhead]
      exact hnext
    refine ⟨_, _, readFrom_word hname' hbehind start', ?_, rfl⟩
    show (!Grammar.isReserved _) = true
    rw [Bool.not_eq_true']
    exact hname'.free
  · rw [hkind] at hextent htoken
    obtain ⟨rfl, hback⟩ := (name_of_extent hextent).2 rfl
    obtain ⟨x, b, rfl, hx, rfl⟩ := backtickExtent_eq_some.1 hback
    rw [List.append_cons, List.take_left' (by simp)] at htoken
    rw [List.append_cons, List.drop_left' (by simp)] at hrest
    subst htoken
    have hname : Token.name ⟨.quotedName, backtick :: (x ++ [backtick]), start + blanks.length⟩ = x :=
      List.dropLast_concat
    have hstop : Token.stop ⟨.quotedName, backtick :: (x ++ [backtick]), start + blanks.length⟩ =
        start + blanks.length + 1 + x.length + 1 := by
      simp only [stop, List.length_cons, List.length_append, List.length_nil]
      omega
    rw [hname]
    refine ⟨blanks, [backtick], b, rfl, hb, .inr rfl, rfl, ?_, ?_⟩
    · rw [← hrest, hstop]
      rfl
    intro name b' hsuits hhead start'
    have hname' : backtick ∉ name := by
      rcases hsuits with rfl | hsuits
      · exact hx
      · intro hmem
        have := hsuits.isWordChar _ hmem
        revert this
        decide
    refine ⟨_, _, readFrom_quotedName hname' b' start', ?_, List.dropLast_concat⟩
    rcases hsuits with rfl | hsuits
    · exact ht
    have hbracket : ∀ d, Text.isWordChar d = false → d ≠ backtick →
        (backtick :: (name ++ [backtick])).contains d = false := by
      intro d hd hne
      rw [← Bool.not_eq_true, List.contains_iff_mem]
      intro hmem
      have hd' : d ∈ name := by simpa [hne] using hmem
      rw [hsuits.isWordChar d hd'] at hd
      cases hd
    show (!(List.contains _ '[' || List.contains _ ']')) = true
    rw [hbracket '[' (by decide) (by decide), hbracket ']' (by decide) (by decide)]
    rfl

end Name

/-! ## In front of a name -/

section Cut

open Grammar (isIdentifier namePosition)

variable {start : Nat} {c z : Char} {r u text : Text} {k : Kind} {l t : Token} {us ts : List Token}

/-- White space, the opening backtick or a comma stands right in front of a name. -/
theorem exists_lead {blanks w b : Text} {name : Text} (hextent : extent c (r ++ u) = (l.kind, r.length))
    (hlead : l = ⟨l.kind, c :: r, start⟩) (hl : l.kind = .word ∨ l.isPunct ',' = true)
    (hu : u = blanks ++ (w ++ (name ++ (w ++ b))))
    (hb : ∀ c ∈ blanks, Text.isAsciiBlank c = true) (hw : w = [] ∧ name.IsName ∨ w = [backtick]) :
    ∃ a z, c :: (r ++ (blanks ++ w)) = a ++ [z] ∧ isBreak z = true ∧
      ∀ x, extent c (r ++ (blanks ++ (w ++ x))) = (l.kind, r.length) := by
  have hkind : l.kind ≠ .comment := by
    rcases hl with hl | hl
    · rw [hl]
      decide
    · rw [Grammar.kind_of_isPunct hl]
      decide
  subst hu
  -- whatever stands behind a break
  have hbehind : ∀ {y v : Text} {z : Char}, isBreak z = true →
      extent c (r ++ (y ++ z :: v)) = (l.kind, r.length) →
        ∀ x, extent c (r ++ (y ++ z :: x)) = (l.kind, r.length) := by
    intro y v z hz h x
    rw [← List.append_assoc] at h ⊢
    exact extent_break hz h (by simp) hkind x
  rcases hw with ⟨rfl, hname⟩ | rfl
  · rcases List.eq_nil_or_concat blanks with rfl | ⟨bs, z, rfl⟩
    · rcases hl with hl | hl
      · -- a word does not end in front of a character of a name
        rw [hl] at hextent
        have hfits : Fits ⟨.word, _, start⟩ _ := fits_of_extent hextent
        have hnext := (hfits.word rfl).2.2
        obtain ⟨d, name, rfl⟩ := List.exists_cons_of_ne_nil hname.ne_nil
        rw [List.drop_left' rfl] at hnext
        have := hnext d rfl
        rw [hname.isWordChar d List.mem_cons_self] at this
        cases this
      · have hkind := Grammar.kind_of_isPunct hl
        have htext : c :: r = [','] := by
          have : l.text = [','] := by
            simp only [isPunct, Bool.and_eq_true, beq_iff_eq] at hl
            exact hl.2
          rwa [hlead] at this
        obtain ⟨rfl, rfl⟩ := List.cons.inj htext
        refine ⟨[], ',', rfl, by decide, ?_⟩
        intro x
        rw [hkind]
        rfl
    · have hz : isBreak z = true := isBreak_of_isAsciiBlank (hb z (by simp))
      refine ⟨c :: (r ++ bs), z, by simp, hz, ?_⟩
      intro x
      have := hbehind (y := bs) (v := name ++ b) hz (by simpa using hextent) x
      simpa using this
  · refine ⟨c :: (r ++ blanks), backtick, by simp, by decide, ?_⟩
    intro x
    exact hbehind (by decide) hextent x

/-- The tokens up to a name.  With another name in its place they are the same, and what follows it
is read on its own. -/
theorem exists_cut (h : readFrom start text = us ++ l :: t :: ts)
    (hl : l.kind = .word ∨ l.isPunct ',' = true) (ht : isIdentifier t = true)
    (hcomment : ∀ x ∈ us, x.kind ≠ .comment) :
    ∃ a z w b, text = a ++ z :: (t.name ++ (w ++ b)) ∧ isBreak z = true ∧
      namePosition t = start + (a.length + 1) ∧
      readFrom (namePosition t + t.name.length + w.length) b = ts ∧
      ∀ n b', (n = t.name ∨ n.IsName) → b'.head? = b.head? → ∀ start', ∃ us' l' t' stop',
        readFrom start' (a ++ z :: (n ++ (w ++ b'))) = us' ++ l' :: t' :: readFrom stop' b' ∧
          Forall₂ Token.Alike us us' ∧ l.Alike l' ∧ isIdentifier t' = true ∧ t'.name = n := by
  induction us generalizing start text with
  | nil =>
    obtain ⟨blanks, c, r, u, rfl, hb, hc, hextent, hlead, hrest⟩ :=
      exists_of_readFrom_more h (List.cons_ne_nil _ _)
    obtain ⟨blanks', w, b, rfl, hb', hw, hposition, hts, hagain⟩ := exists_name hrest ht
    obtain ⟨a, z, haz, hz, hreach⟩ := exists_lead hextent hlead hl rfl hb' hw
    have hsplit : ∀ x : Text, blanks ++ c :: (r ++ (blanks' ++ (w ++ x))) =
        (blanks ++ a) ++ z :: x := by
      intro x
      have := congrArg (· ++ x) haz
      simp only [List.cons_append, List.append_assoc, List.nil_append] at this
      rw [this, List.append_assoc]
    refine ⟨blanks ++ a, z, w, b, hsplit _, hz, ?_, hts, ?_⟩
    · have hlength := congrArg List.length haz
      have hstop : l.stop = start + blanks.length + (c :: r).length := by rw [hlead]; rfl
      rw [hposition, hstop]
      simp only [List.length_append, List.length_cons, List.length_nil] at hlength ⊢
      omega
    intro n b' hn hhead start'
    obtain ⟨t', stop', hread, ht', hname⟩ := hagain n b' hn hhead (start' + blanks.length +
      (c :: r).length + blanks'.length)
    refine ⟨[], ⟨l.kind, c :: r, start' + blanks.length⟩, t', stop', ?_, .nil, ?_, ht', hname⟩
    · rw [← hsplit, readFrom_blanks hb, readFrom_token hc (hreach _), readFrom_blanks hb', hread]
      rfl
    · rw [hlead]
      exact .intro _ _ _ _
  | cons x us ih =>
    obtain ⟨blanks, c, r, u, rfl, hb, hc, hextent, hfirst, hrest⟩ :=
      exists_of_readFrom_more h (by simp)
    obtain ⟨a, z, w, b, rfl, hz, hposition, hts, hagain⟩ :=
      ih hrest fun y hy => hcomment y (List.mem_cons_of_mem x hy)
    have hsplit : ∀ v : Text, blanks ++ c :: (r ++ (a ++ z :: v)) =
        (blanks ++ c :: (r ++ a)) ++ z :: v := by simp
    refine ⟨blanks ++ c :: (r ++ a), z, w, b, hsplit _, hz, ?_, hts, ?_⟩
    · have hstop : x.stop = start + blanks.length + (c :: r).length := by rw [hfirst]; rfl
      rw [hposition, hstop]
      simp only [List.length_append, List.length_cons]
      omega
    intro n b' hn hhead start'
    obtain ⟨us', l', t', stop', hread, hus, hlead, ht', hname⟩ :=
      hagain n b' hn hhead (start' + blanks.length + (c :: r).length)
    have hreach : extent c (r ++ (a ++ z :: (n ++ (w ++ b')))) = (x.kind, r.length) := by
      rw [← List.append_assoc] at hextent ⊢
      exact extent_break hz hextent (by simp) (hcomment x List.mem_cons_self) _
    refine ⟨⟨x.kind, c :: r, start' + blanks.length⟩ :: us', l', t', stop', ?_, .cons ?_ hus, hlead,
      ht', hname⟩
    · rw [← hsplit, readFrom_blanks hb, readFrom_token hc hreach, hread]
      rfl
    · rw [hfirst]
      exact .intro _ _ _ _

end Cut

end Token

/-! ## Names between gaps -/

namespace Text

variable {gaps gaps' names names' : List Text} {last last' : Text}

theorem weave_cons (gap name : Text) (gaps names : List Text) (last : Text) :
    weave (gap :: gaps) (name :: names) last = gap ++ (name ++ weave gaps names last) := by
  simp [weave]

/-- What stands in front of the first gap is taken into it. -/
theorem exists_weave_append (w : Text) (gaps : List Text) (last : Text) :
    ∃ gaps' last', gaps'.length = gaps.length ∧
      ((∀ gap ∈ gaps, gap ≠ []) → ∀ gap ∈ gaps', gap ≠ []) ∧
      (∀ names, names.length = gaps.length → weave gaps' names last' = w ++ weave gaps names last) ∧
      ∀ start names, positions start gaps' names = positions (start + w.length) gaps names := by
  cases gaps with
  | nil => exact ⟨[], w ++ last, rfl, fun h => h, fun _ _ => rfl, fun _ _ => by simp [positions]⟩
  | cons gap gaps =>
    refine ⟨(w ++ gap) :: gaps, last, rfl, ?_, ?_, ?_⟩
    · intro h
      rw [List.forall_mem_cons] at h ⊢
      exact ⟨by simp [h.1], h.2⟩
    · intro names hnames
      obtain ⟨name, names, rfl⟩ := List.exists_cons_of_length_eq_add_one hnames
      rw [weave_cons, weave_cons, List.append_assoc]
    · intro start names
      cases names with
      | nil => rfl
      | cons name names =>
        rw [positions, positions, List.length_append, ← Nat.add_assoc]

theorem head?_weave (hgaps : ∀ gap ∈ gaps, gap ≠ []) {α : Type} {xs : List α}
    (hxs : gaps.length = xs.length) (f g : α → Text) (last : Text) :
    (weave gaps (xs.map f) last).head? = (weave gaps (xs.map g) last).head? := by
  cases gaps with
  | nil => rfl
  | cons gap gaps =>
    obtain ⟨x, xs, rfl⟩ := List.exists_cons_of_length_eq_add_one hxs.symm
    obtain ⟨c, gap, rfl⟩ := List.exists_cons_of_ne_nil (hgaps gap List.mem_cons_self)
    rw [List.map_cons, List.map_cons, weave_cons, weave_cons]
    rfl

/-- The gaps are known from the places of the names. -/
theorem eq_of_weave {start : Nat} (hgaps : gaps.length = names.length)
    (hgaps' : gaps'.length = names.length)
    (hpositions : positions start gaps names = positions start gaps' names)
    (h : weave gaps names last = weave gaps' names last') : gaps = gaps' ∧ last = last' := by
  induction gaps generalizing start gaps' names with
  | nil =>
    obtain rfl := List.eq_nil_of_length_eq_zero hgaps.symm
    obtain rfl := List.eq_nil_of_length_eq_zero hgaps'
    exact ⟨rfl, h⟩
  | cons gap gaps ih =>
    obtain ⟨name, names, rfl⟩ := List.exists_cons_of_length_eq_add_one hgaps.symm
    obtain ⟨gap', gaps', rfl⟩ := List.exists_cons_of_length_eq_add_one hgaps'
    rw [positions, positions] at hpositions
    obtain ⟨hposition, hpositions⟩ := List.cons.inj hpositions
    rw [weave_cons, weave_cons] at h
    obtain ⟨rfl, hrest⟩ := List.append_inj h (by omega)
    obtain ⟨rfl, rfl⟩ := ih (by simpa using hgaps) (by simpa using hgaps') hpositions
      (List.append_cancel_left hrest)
    exact ⟨rfl, rfl⟩

end Text

/-! ## Phrases between gaps -/

namespace Grammar

open List (Forall₂)

/-- The tokens of a text with other names between its gaps. -/
theorem exists_weave {start : Nat} {text : Text} {us rest : List Token} {xs : List Phrase}
    (h : Token.readFrom start text = us ++ (xs.flatMap Phrase.tokens ++ rest))
    (hcomment : ∀ t ∈ us ++ (xs.flatMap Phrase.tokens ++ rest), t.kind ≠ .comment) :
    ∃ gaps last, gaps.length = xs.length ∧ (∀ gap ∈ gaps, gap ≠ []) ∧
      text = Text.weave gaps (xs.map (·.name.name)) last ∧
      Text.positions start gaps (xs.map (·.name.name)) = xs.map (namePosition ·.name) ∧
      ∀ f : Text → Text, (∀ x ∈ xs, f x.name.name = x.name.name ∨ (f x.name.name).IsName) →
        ∀ start', ∃ us' ys rest',
          Token.readFrom start' (Text.weave gaps (xs.map (f ·.name.name)) last) =
              us' ++ (ys.flatMap Phrase.tokens ++ rest') ∧
            Forall₂ Token.Alike us us' ∧ Forall₂ (Phrase.Like f) xs ys ∧
            Forall₂ Token.Alike rest rest' := by
  induction xs generalizing start text us with
  | nil =>
    refine ⟨[], text, rfl, by simp, rfl, rfl, ?_⟩
    rintro f - start'
    have hlike := Token.readFrom_alike start start' text
    rw [h] at hlike
    obtain ⟨us', rest', hread, hus, hrest⟩ := exists_of_forall₂_append hlike
    exact ⟨us', [], rest', hread, hus, .nil, hrest⟩
  | cons x xs ih =>
    have htokens : us ++ ((x :: xs).flatMap Phrase.tokens ++ rest) =
        (us ++ x.before) ++ x.lead :: x.name :: (x.after ++ (xs.flatMap Phrase.tokens ++ rest)) := by
      simp [Phrase.tokens]
    rw [htokens] at h hcomment
    obtain ⟨a, z, w, b, rfl, -, hposition, hrest, hagain⟩ := Token.exists_cut h x.isLead x.isName
      fun t ht => hcomment t (List.mem_append_left _ ht)
    obtain ⟨gaps, last, hlength, hgaps, rfl, hpositions, hnames⟩ := ih hrest fun t ht =>
      hcomment t (List.mem_append_right _ (List.mem_cons_of_mem _ (List.mem_cons_of_mem _ ht)))
    obtain ⟨gaps', last', hlength', hgaps', hweave, hpositions'⟩ :=
      Text.exists_weave_append w gaps last
    refine ⟨(a ++ [z]) :: gaps', last', by simp [hlength', hlength], ?_, ?_, ?_, ?_⟩
    · exact List.forall_mem_cons.2 ⟨by simp, hgaps' hgaps⟩
    · rw [List.map_cons, Text.weave_cons, hweave _ (by simp [hlength])]
      simp
    · rw [List.map_cons, Text.positions, hpositions', List.map_cons, hposition]
      simp only [List.length_append, List.length_singleton]
      rw [← hpositions, hposition]
    intro f hf start'
    rw [List.forall_mem_cons] at hf
    have hhead := Text.head?_weave hgaps hlength (f ·.name.name) (·.name.name) last
    obtain ⟨us', l', t', stop', hread, hus, hlead, ht', hname⟩ := hagain _ _ hf.1 hhead start'
    obtain ⟨after', ys, rest', hread', hafter, hys, hrest'⟩ := hnames f hf.2 stop'
    obtain ⟨us', before', rfl, hus, hbefore⟩ := exists_of_forall₂_append hus
    have hl' : l'.kind = .word ∨ l'.isPunct ',' = true := by
      have := x.isLead
      generalize x.lead = l at hlead this
      cases hlead
      exact this
    refine ⟨us', ⟨before', l', t', after', hl', ht'⟩ :: ys, rest', ?_, hus,
      .cons ⟨hbefore, hlead, hname, hafter⟩ hys, hrest'⟩
    rw [List.map_cons, Text.weave_cons, hweave _ (by simp [hlength]), List.append_assoc,
      List.singleton_append, hread, hread']
    simp [Phrase.tokens]

end Grammar

end TypedMirror
