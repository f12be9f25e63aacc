import TypedMirror.Plan.Script
import TypedMirror.Proofs.Patterns.Quoting

/-!
# Reading a script

A command-line client reads a script from top to bottom.  Outside of strings it looks at the start of
each line for a comment or a new delimiter, which are for the client alone; all other text, up to the
next delimiter, is a statement.

* `Script.read` — what a client makes of a script;
* `Script.Gives` — a stretch of a script that gives some statements, wherever it stands;
* `Script.IsStatement.gives` — a statement with a delimiter behind it is one.
-/

namespace TypedMirror

/-! ## Blanks around a text -/

namespace Text

variable {a b t : Text}

theorem dropWhile_blank (ha : isAllBlank a = true) (hfirst : ∀ c ∈ t.head?, isBlank c = false) :
    (a ++ t).dropWhile isBlank = t := by
  rw [List.dropWhile_append_of_pos (List.all_eq_true.1 ha)]
  cases t with
  | nil => rfl
  | cons c t => exact List.dropWhile_cons_of_neg (by simp [hfirst c rfl])

/-- Trimming takes blanks away, and nothing but blanks. -/
theorem trim_eq (ha : isAllBlank a = true) (hb : isAllBlank b = true)
    (hfirst : ∀ c ∈ t.head?, isBlank c = false) (hlast : ∀ c ∈ t.getLast?, isBlank c = false) :
    trim (a ++ (t ++ b)) = t := by
  have hb' : isAllBlank b.reverse = true := by
    unfold isAllBlank at hb ⊢
    rwa [List.all_reverse]
  have hlast' : ∀ c ∈ t.reverse.head?, isBlank c = false := by
    rwa [List.head?_reverse]
  unfold trim
  cases t with
  | nil =>
    have hall : isAllBlank (a ++ b) = true := by
      unfold isAllBlank at ha hb ⊢
      rw [List.all_append, ha, hb]
      rfl
    rw [List.nil_append, List.dropWhile_eq_nil_iff.2 (List.all_eq_true.1 hall)]
    rfl
  | cons c t =>
    rw [dropWhile_blank ha (t := c :: t ++ b) hfirst, List.reverse_append,
      dropWhile_blank hb' hlast', List.reverse_reverse]

end Text

/-! ## The client -/

/-- The mark that ends a statement. -/
structure Delimiter where
  text : Text
  ne_nil : text ≠ []
deriving DecidableEq, Repr

namespace Script

/-- The delimiter at the start of a script. -/
def semicolon : Delimiter := ⟨[';'], List.cons_ne_nil _ _⟩

/-- What a client has made of a script. -/
structure Reading where
  statements : List Text
  /-- The text behind the last statement, blanks around it aside. -/
  left : Text
  /-- The delimiter at the end. -/
  delimiter : Delimiter
deriving DecidableEq, Repr

/-- With some statements in front. -/
def Reading.behind (r : Reading) (ss : List Text) : Reading :=
  { r with statements := ss ++ r.statements }

/-- The text from the next line on. -/
def nextLine (t : Text) : Text := (t.dropWhile (· != '\n')).tail

/-- The delimiter behind a line that is for the client alone: a comment, or a line that sets the
delimiter. -/
def directive? (d : Delimiter) (t : Text) : Option Delimiter :=
  let line := t.takeWhile (· != '\n')
  if (Text.after? "-- ".toList line).isSome then some d
  else
    match Text.after? "DELIMITER ".toList line with
    | some (c :: mark) => some ⟨c :: mark, List.cons_ne_nil _ _⟩
    | _ => none

theorem length_nextLine_lt (c : Char) (r : Text) : (nextLine (c :: r)).length < (c :: r).length := by
  have := (List.dropWhile_suffix (· != '\n') (l := c :: r)).length_le
  unfold nextLine
  rw [List.length_tail]
  simp only [List.length_cons] at this ⊢
  omega

theorem length_lt_of_after? {d : Delimiter} {t rest : Text} (h : Text.after? d.text t = some rest) :
    rest.length < t.length := by
  have := List.length_pos_of_ne_nil d.ne_nil
  rw [Text.after?_eq_some.1 h, List.length_append]
  omega

theorem length_lt_of_close {r contents rest : Text} (h : Quoted.close '\'' r = some (contents, rest)) :
    rest.length < r.length := by
  rw [Quoted.close_append h, List.length_append, List.length_cons]
  omega

/-- Reads on outside of strings.  `pending` is the text since the last statement, and `lineStart`
tells whether a line starts here. -/
def readFrom (d : Delimiter) (pending : Text) (lineStart : Bool) (t : Text) : Reading :=
  match t with
  | [] => ⟨[], Text.trim pending, d⟩
  | c :: r =>
    match if lineStart then directive? d (c :: r) else none with
    | some d' => readFrom d' pending true (nextLine (c :: r))
    | none =>
      match h : Text.after? d.text (c :: r) with
      | some rest =>
        have := length_lt_of_after? h
        (readFrom d [] false rest).behind [Text.trim pending]
      | none =>
        if c = '\'' then
          match hc : Quoted.close '\'' r with
          | some (contents, rest) =>
            have := length_lt_of_close hc
            readFrom d (pending ++ '\'' :: contents ++ ['\'']) false rest
          | none => ⟨[], Text.trim (pending ++ c :: r), d⟩
        else readFrom d (pending ++ [c]) (c == '\n') r
termination_by t.length
decreasing_by
  · exact length_nextLine_lt c r
  · assumption
  · rw [List.length_cons]
    omega
  · exact Nat.lt_succ_self _

/-- The statements of a script. -/
def read (t : Text) : Reading := readFrom semicolon [] true t

section Steps

variable {d d' : Delimiter} {pending r rest x : Text} {lineStart : Bool} {c mark : Char}

theorem directive?_of_head (h : c ≠ '-') (h' : c ≠ 'D') : directive? d (c :: r) = none := by
  have hcomment : ∀ r, Text.after? "-- ".toList (c :: r) = none := fun r =>
    Text.after?_cons_of_ne h.symm
  have hdelimiter : ∀ r, Text.after? "DELIMITER ".toList (c :: r) = none := fun r =>
    Text.after?_cons_of_ne h'.symm
  unfold directive?
  rw [List.takeWhile_cons]
  split
  · dsimp only
    rw [hcomment, hdelimiter]
    rfl
  · rfl

theorem directive?_drop : directive? d ('D' :: 'R' :: r) = none := rfl

theorem readFrom_directive (h : directive? d (c :: r) = some d') :
    readFrom d pending true (c :: r) = readFrom d' pending true (nextLine (c :: r)) := by
  rw [readFrom, if_pos rfl, h]

/-- Where no line is for the client, it does not matter whether one starts. -/
theorem readFrom_of_directive? (h : directive? d (c :: r) = none) :
    readFrom d pending lineStart (c :: r) = readFrom d pending false (c :: r) := by
  rw [readFrom, readFrom, h, ite_self, ite_self]

theorem readFrom_delimiter (hc : mark ≠ '-' ∧ mark ≠ 'D') (hd : d.text.head? = some mark) :
    readFrom d pending lineStart (d.text ++ rest) =
      (readFrom d [] false rest).behind [Text.trim pending] := by
  have hafter : Text.after? d.text (d.text ++ rest) = some rest := Text.after?_eq_some.2 rfl
  obtain ⟨m, hm⟩ := List.head?_eq_some_iff.1 hd
  rw [hm, List.cons_append] at hafter ⊢
  rw [readFrom_of_directive? (directive?_of_head hc.1 hc.2), readFrom]
  split
  · rename_i heq
    cases heq
  · split
    · rename_i heq
      rw [hm] at heq
      cases hafter.symm.trans heq
      rfl
    · rename_i heq
      rw [hm] at heq
      cases hafter.symm.trans heq

theorem readFrom_char (hdir : lineStart = true → c ≠ '-' ∧ c ≠ 'D') (hd : d.text.head? = some mark)
    (hc : c ≠ mark) (hquote : c ≠ '\'') :
    readFrom d pending lineStart (c :: r) = readFrom d (pending ++ [c]) (c == '\n') r := by
  have hnone : (if lineStart then directive? d (c :: r) else none) = none := by
    cases lineStart with
    | false => rfl
    | true => exact directive?_of_head (hdir rfl).1 (hdir rfl).2
  have hafter : Text.after? d.text (c :: r) = none := by
    obtain ⟨m, hm⟩ := List.head?_eq_some_iff.1 hd
    rw [hm, Text.after?_cons_of_ne hc.symm]
  rw [readFrom, hnone]
  dsimp only
  split
  · rename_i heq
    cases hafter.symm.trans heq
  · rw [if_neg hquote]

/-- A string is read as a whole, whatever it says. -/
theorem readFrom_string (hd : d.text.head? = some mark) (hmark : mark ≠ '\'') (p : Text) :
    readFrom d pending lineStart (Quoted.write p ++ rest) =
      readFrom d (pending ++ Quoted.write p) false rest := by
  have hafter : Text.after? d.text ('\'' :: (Quoted.escape p ++ ['\''] ++ rest)) = none := by
    obtain ⟨m, hm⟩ := List.head?_eq_some_iff.1 hd
    rw [hm, Text.after?_cons_of_ne hmark]
  have hclose : Quoted.close '\'' (Quoted.escape p ++ ['\''] ++ rest) =
      some (Quoted.escape p, rest) := by
    rw [List.append_assoc]
    exact Quoted.close_escape p rest
  rw [Quoted.write_eq, List.cons_append, List.cons_append,
    readFrom_of_directive? (directive?_of_head (by decide) (by decide)), readFrom]
  split
  · rename_i heq
    cases heq
  · split
    · rename_i heq
      cases hafter.symm.trans heq
    · rw [if_pos rfl]
      split
      · rename_i heq
        cases hclose.symm.trans heq
        simp
      · rename_i heq
        cases hclose.symm.trans heq

end Steps

/-! ## Text in which nothing happens -/

/-- No character of the text may start a delimiter, and no line of it is one for the client. -/
def Silent (mark : Char) : (lineStart : Bool) → Text → Prop
  | _, [] => True
  | lineStart, c :: r =>
    c ≠ mark ∧ (lineStart = true → c ≠ '-' ∧ c ≠ 'D') ∧ Silent mark (c == '\n') r

namespace Silent

variable {mark : Char} {lineStart : Bool} {a b t : Text}

theorem mono (h : Silent mark lineStart t) : Silent mark false t := by
  cases t with
  | nil => trivial
  | cons c r => exact ⟨h.1, nofun, h.2.2⟩

theorem append (ha : Silent mark lineStart a) (hb : Silent mark true b) :
    Silent mark lineStart (a ++ b) := by
  induction a generalizing lineStart with
  | nil =>
    cases lineStart with
    | true => exact hb
    | false => exact hb.mono
  | cons c a ih => exact ⟨ha.1, ha.2.1, ih ha.2.2⟩

theorem left (h : Silent mark lineStart (a ++ b)) : Silent mark lineStart a := by
  induction a generalizing lineStart with
  | nil => trivial
  | cons c a ih => exact ⟨h.1, h.2.1, ih h.2.2⟩

theorem right (h : Silent mark lineStart (a ++ b)) : Silent mark false b := by
  induction a generalizing lineStart with
  | nil => exact h.mono
  | cons c a ih => exact ih h.2.2

/-- On a single line only its start matters. -/
theorem of_line (h : ∀ c ∈ t, c ≠ mark ∧ c ≠ '\n')
    (hfirst : lineStart = true → ∀ c ∈ t.head?, c ≠ '-' ∧ c ≠ 'D') : Silent mark lineStart t := by
  induction t generalizing lineStart with
  | nil => trivial
  | cons c t ih =>
    obtain ⟨hc, ht⟩ := List.forall_mem_cons.1 h
    refine ⟨hc.1, fun hstart => hfirst hstart c rfl, ih ht ?_⟩
    intro hbreak
    exact absurd (eq_of_beq hbreak) hc.2

/-- Lines one below the other, none of which starts like one for the client. -/
theorem joinWith {sep : Text} {ts : List Text} (hsep : ∀ lineStart, Silent mark lineStart sep)
    (h : ∀ t ∈ ts, Silent mark true t) : Silent mark lineStart (Text.joinWith sep ts) := by
  suffices Silent mark true (Text.joinWith sep ts) by
    cases lineStart with
    | true => exact this
    | false => exact this.mono
  unfold Text.joinWith
  induction ts with
  | nil => trivial
  | cons t ts ih =>
    obtain ⟨ht, hts⟩ := List.forall_mem_cons.1 h
    cases ts with
    | nil => simpa using ht
    | cons u us =>
      rw [List.intercalate_cons_cons]
      exact (ht.append (hsep true)).append (ih hts)

end Silent

section Read

variable {d : Delimiter} {mark : Char} {t t' u : Text} {ps : List Text}
  {lineStart : Bool}

theorem readFrom_quoteless (hd : d.text.head? = some mark) (ht : t.Quoteless)
    (h : Silent mark lineStart t) (pending rest : Text) : ∃ lineStart',
      readFrom d pending lineStart (t ++ rest) = readFrom d (pending ++ t) lineStart' rest := by
  induction t generalizing pending lineStart with
  | nil => exact ⟨lineStart, by simp⟩
  | cons c t ih =>
    obtain ⟨hquote, ht⟩ := Text.quoteless_cons.1 ht
    have hc : c ≠ '\'' := by
      rintro rfl
      cases hquote
    obtain ⟨lineStart', hrest⟩ := ih ht h.2.2 (pending ++ [c])
    refine ⟨lineStart', ?_⟩
    rw [List.cons_append, readFrom_char h.2.1 hd h.1 hc, hrest, List.append_assoc]
    rfl

/-- Text with quoted patterns is read to its end, if nothing happens in it with empty ones. -/
theorem readFrom_quoting (hd : d.text.head? = some mark) (hmark : mark ≠ '\'')
    (hq : Quoting ps t t') (h : Silent mark lineStart t') (pending rest : Text) : ∃ lineStart',
      readFrom d pending lineStart (t ++ rest) = readFrom d (pending ++ t) lineStart' rest := by
  induction hq generalizing pending lineStart with
  | done ht => exact readFrom_quoteless hd ht h pending rest
  | @pattern t p u u' ps ht hu ih =>
    obtain ⟨s, hbefore⟩ := readFrom_quoteless hd ht h.left pending (Quoted.write p ++ (u ++ rest))
    obtain ⟨s', hafter⟩ := ih h.right.right (pending ++ t ++ Quoted.write p)
    refine ⟨s', ?_⟩
    rw [List.append_assoc, List.append_assoc, hbefore, readFrom_string hd hmark, hafter]
    simp

end Read

/-! ## Lines of a script -/

/-- Read from the start of a line on, with only blanks before it, the text gives some statements; and
then comes another line, with only blanks before it. -/
def Gives (d : Delimiter) (t : Text) (ss : List Text) (d' : Delimiter) : Prop :=
  ∀ pending rest, Text.isAllBlank pending = true → ∃ pending', Text.isAllBlank pending' = true ∧
    readFrom d pending true (t ++ rest) = (readFrom d' pending' true rest).behind ss

/-- A text that is a statement if a delimiter that starts with `mark` follows it. -/
structure IsStatement (mark : Char) (t : Text) : Prop where
  quoting : ∃ ps t', Quoting ps t t' ∧ Silent mark false t'
  start : ∀ d rest, directive? d (t ++ rest) = none
  ne_nil : t ≠ []
  first : ∀ c ∈ t.head?, Text.isBlank c = false
  last : ∀ c ∈ t.getLast?, Text.isBlank c = false

section Lines

variable {d d' d'' : Delimiter} {t u x : Text} {ss us : List Text} {mark : Char}

theorem Gives.nil (d : Delimiter) : Gives d [] [] d := fun pending _ hp => ⟨pending, hp, rfl⟩

theorem Gives.append (h : Gives d t ss d') (hu : Gives d' u us d'') :
    Gives d (t ++ u) (ss ++ us) d'' := by
  intro pending rest hp
  obtain ⟨pending', hp', ht⟩ := h pending (u ++ rest) hp
  obtain ⟨pending'', hp'', hu⟩ := hu pending' rest hp'
  refine ⟨pending'', hp'', ?_⟩
  rw [List.append_assoc, ht, hu, Reading.behind, Reading.behind, Reading.behind, List.append_assoc]

theorem Gives.flatMap {α : Type} {f : α → Text} {g : α → List Text} {xs : List α}
    (h : ∀ x ∈ xs, Gives d (f x) (g x) d) : Gives d (xs.flatMap f) (xs.flatMap g) d := by
  induction xs with
  | nil => exact .nil d
  | cons x xs ih =>
    obtain ⟨hx, hxs⟩ := List.forall_mem_cons.1 h
    exact hx.append (ih hxs)

theorem nextLine_line (hx : '\n' ∉ x) (rest : Text) : nextLine (x ++ '\n' :: rest) = rest := by
  unfold nextLine
  rw [List.dropWhile_append_of_pos, List.dropWhile_cons_of_neg (by simp), List.tail_cons]
  intro c hc
  rw [bne_iff_ne]
  rintro rfl
  exact hx hc

theorem takeWhile_line (hx : '\n' ∉ x) (rest : Text) :
    (x ++ '\n' :: rest).takeWhile (· != '\n') = x := by
  rw [List.takeWhile_append_of_pos, List.takeWhile_cons_of_neg (by simp), List.append_nil]
  intro c hc
  rw [bne_iff_ne]
  rintro rfl
  exact hx hc

/-- A line that is for the client gives no statement. -/
theorem gives_directive (hx : '\n' ∉ x)
    (h : ∀ rest, directive? d (x ++ '\n' :: rest) = some d') : Gives d (x ++ ['\n']) [] d' := by
  intro pending rest hp
  refine ⟨pending, hp, ?_⟩
  have hline := h rest
  have hnext := nextLine_line hx rest
  rw [List.append_assoc, List.singleton_append]
  cases hxs : x ++ '\n' :: rest with
  | nil => simp at hxs
  | cons c r =>
    rw [hxs] at hline hnext
    rw [readFrom_directive hline, hnext]
    rfl

theorem gives_comment (hx : '\n' ∉ x) : Gives d ("-- ".toList ++ x ++ ['\n']) [] d := by
  have hline : '\n' ∉ "-- ".toList ++ x := by simp [hx]
  refine gives_directive hline fun rest => ?_
  have hafter : Text.after? "-- ".toList ("-- ".toList ++ x) = some x := Text.after?_eq_some.2 rfl
  unfold directive?
  dsimp only
  rw [takeWhile_line hline, hafter]
  rfl

theorem gives_delimiter (d' : Delimiter) (hd : '\n' ∉ d'.text) :
    Gives d ("DELIMITER ".toList ++ d'.text ++ ['\n']) [] d' := by
  have hline : '\n' ∉ "DELIMITER ".toList ++ d'.text := by simp [hd]
  refine gives_directive hline fun rest => ?_
  have hafter : Text.after? "DELIMITER ".toList ("DELIMITER ".toList ++ d'.text) = some d'.text :=
    Text.after?_eq_some.2 rfl
  unfold directive?
  dsimp only
  rw [takeWhile_line hline, hafter]
  obtain ⟨_ | ⟨c, mark⟩, hne⟩ := d'
  · exact absurd rfl hne
  · rfl

theorem gives_blank (hd : d.text.head? = some mark) (hmark : mark ≠ '\n') : Gives d ['\n'] [] d := by
  intro pending rest hp
  refine ⟨pending ++ ['\n'], ?_, ?_⟩
  · unfold Text.isAllBlank at hp ⊢
    rw [List.all_append, hp]
    rfl
  · exact readFrom_char (by decide) hd hmark.symm (by decide)

/-- A statement with blanks, a delimiter and the end of the line behind it. -/
theorem IsStatement.gives (h : IsStatement mark t) (hd : d.text.head? = some mark)
    (hmark : mark ∉ ['-', 'D', '\'', '\n', ' ']) (blanks : Text) (hblanks : ∀ c ∈ blanks, c = ' ') :
    Gives d (t ++ blanks ++ d.text ++ ['\n']) [t] d := by
  intro pending rest hp
  obtain ⟨ps, t', hq, hsilent⟩ := h.quoting
  simp only [List.mem_cons, List.not_mem_nil, or_false, not_or] at hmark
  obtain ⟨hdash, hD, hquote, hline, hspace⟩ := hmark
  obtain ⟨s, hread⟩ := readFrom_quoting hd hquote hq hsilent pending
    (blanks ++ (d.text ++ '\n' :: rest))
  have hsilent' : Silent mark s blanks := by
    refine .of_line ?_ ?_
    · intro c hc
      rw [hblanks c hc]
      exact ⟨Ne.symm hspace, by decide⟩
    · intro _ c hc
      rw [hblanks c (List.mem_of_mem_head? hc)]
      decide
  have hquoteless : blanks.Quoteless := by
    intro c hc
    rw [hblanks c hc]
    rfl
  obtain ⟨s', hread'⟩ := readFrom_quoteless hd hquoteless hsilent' (pending ++ t)
    (d.text ++ '\n' :: rest)
  have hallblank : Text.isAllBlank blanks = true := by
    refine List.all_eq_true.2 fun c hc => ?_
    rw [hblanks c hc]
    rfl
  refine ⟨['\n'], rfl, ?_⟩
  have htext : t ++ blanks ++ d.text ++ ['\n'] ++ rest =
      t ++ (blanks ++ (d.text ++ '\n' :: rest)) := by simp
  have hstart : readFrom d pending true (t ++ (blanks ++ (d.text ++ '\n' :: rest))) =
      readFrom d pending false (t ++ (blanks ++ (d.text ++ '\n' :: rest))) := by
    have hdirective := h.start d (blanks ++ (d.text ++ '\n' :: rest))
    obtain ⟨c, r, rfl⟩ := List.exists_cons_of_ne_nil h.ne_nil
    exact readFrom_of_directive? hdirective
  rw [htext, hstart, hread, hread', readFrom_delimiter ⟨hdash, hD⟩ hd, List.append_assoc,
    Text.trim_eq hp hallblank h.first h.last]
  exact congrArg (Reading.behind · [t]) (readFrom_char (by simp) hd (Ne.symm hline) (by decide))

/-- A script is read to the end. -/
theorem Gives.read_eq (h : Gives semicolon t ss semicolon) : read t = ⟨ss, [], semicolon⟩ := by
  obtain ⟨pending, hp, ht⟩ := h [] [] rfl
  rw [List.append_nil] at ht
  rw [read, ht, readFrom, Text.trim_eq_nil.2 hp, Reading.behind, List.append_nil]

end Lines

end Script

end TypedMirror
