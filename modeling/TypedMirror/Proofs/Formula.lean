import Mathlib.Algebra.GroupWithZero.Nat
import TypedMirror.Query.Where

/-!
# Conditions as boolean expressions

The tokens of a condition without disjunctions, read as a boolean expression.  Parentheses and
`CASE … END` group, the `AND` behind the lower bound of a `BETWEEN` belongs to it, and `NOT` binds
tighter than `AND`.  What is open at some place is known from the tokens before it.

* `chain_operands` — an expression is the chain of its operands;
* `solid_operands` — no connector of an operand stands outside all groups;
* `Chain.split` — a chain is cut wherever nothing is open before a connector;
* `truth_of_mem_operands` — the comparisons that a true expression has for operands are true.
-/

namespace TypedMirror.Grammar

/-! ## Groups -/

/-- What can be open. -/
inductive Group
  | paren
  | cases
  /-- A `BETWEEN` whose `AND` is yet to come. -/
  | between
deriving DecidableEq, Repr

/-- What is open after a token, the innermost first.  There is no telling behind a parenthesis that
closes nothing. -/
def enter (opened : List Group) (t : Token) : Option (List Group) :=
  if t.isPunct '(' then some (.paren :: opened)
  else if t.isPunct ')' then
    match opened with
    | .paren :: rest => some rest
    | _ => none
  else if t.isKeyword "CASE" then some (.cases :: opened)
  else if t.isKeyword "END" then
    match opened with
    | .cases :: rest => some rest
    | _ => some opened
  else if t.isKeyword "BETWEEN" then some (.between :: opened)
  else if t.isKeyword "AND" then
    match opened with
    | .between :: rest => some rest
    | _ => some opened
  else some opened

/-- What is open after some tokens. -/
def openAfter (opened : List Group) (ts : List Token) : Option (List Group) := ts.foldlM enter opened

def isConjunction (t : Token) : Bool := connects? t = some .conjunction

/-- The tokens close all that is open, and until then hold no connector outside all groups. -/
def isSolid (opened : List Group) : List Token → Bool
  | [] => opened.isEmpty
  | t :: ts => !(opened.isEmpty && isConjunction t) && (enter opened t).any (isSolid · ts)

/-! ## Expressions -/

inductive Formula
  /-- A comparison, or anything else without a truth of its own. -/
  | atom (ts : List Token)
  | not (word : Token) (f : Formula)
  | group (left : Token) (f : Formula) (right : Token)
  | and (f : Formula) (word : Token) (g : Formula)
deriving DecidableEq, Repr

namespace Formula

def tokens : Formula → List Token
  | .atom ts => ts
  | .not word f => word :: f.tokens
  | .group left f right => left :: f.tokens ++ [right]
  | .and f word g => f.tokens ++ word :: g.tokens

def isAnd : Formula → Bool
  | .and _ _ _ => true
  | _ => false

/-- The parts stand as they are read: `NOT` only in front of a single operand. -/
def wellFormed : Formula → Bool
  | .atom ts => isSolid [] ts && !(ts.head?.any (·.isKeyword "NOT"))
  | .not word f => word.isKeyword "NOT" && !f.isAnd && f.wellFormed
  | .group left f right => left.isPunct '(' && right.isPunct ')' && f.wellFormed
  | .and f word g => isConjunction word && f.wellFormed && g.wellFormed

/-- The truth under an assignment to the comparisons. -/
def truth (v : List Token → Bool) : Formula → Bool
  | .atom ts => v ts
  | .not _ f => !f.truth v
  | .group _ f _ => f.truth v
  | .and f _ g => f.truth v && g.truth v

/-- The operands of the outermost chain of connectors. -/
def operands : Formula → List (List Token)
  | .and f _ g => f.operands ++ g.operands
  | f => [f.tokens]

end Formula

/-- The parts, with a connector between neighbours, make up the tokens. -/
inductive Chain : List (List Token) → List Token → Prop
  | last (s : List Token) : Chain [s] s
  | more (s : List Token) {c : Token} {ss : List (List Token)} {ts : List Token}
    (hc : isConjunction c = true) (h : Chain ss ts) : Chain (s :: ss) (s ++ c :: ts)

/-! ## What is open -/

section Open

variable {opened : List Group} {t c : Token} {ts us a b : List Token}

theorem openAfter_cons : openAfter opened (t :: ts) = (enter opened t).bind (openAfter · ts) := rfl

theorem openAfter_append (ts us : List Token) :
    openAfter opened (ts ++ us) = (openAfter opened ts).bind (openAfter · us) := by
  unfold openAfter
  rw [List.foldlM_append]
  rfl

/-- A token is a keyword in one way only. -/
theorem not_isKeyword {word word' : String} (h : t.isKeyword word = true)
    (hne : Text.lower word.toList ≠ Text.lower word'.toList) : t.isKeyword word' = false := by
  unfold Token.isKeyword at h ⊢
  rw [Bool.and_eq_true] at h
  rw [Bool.and_eq_false_iff]
  refine .inr ?_
  rw [← Bool.not_eq_true]
  intro h'
  exact hne ((eq_of_beq h.2).symm.trans (eq_of_beq h'))

theorem not_isKeyword_of_kind {word : String} (h : t.kind ≠ .word) : t.isKeyword word = false := by
  simp [Token.isKeyword, h]

theorem not_isPunct_of_kind {p : Char} (h : t.kind ≠ .punct) : t.isPunct p = false := by
  simp [Token.isPunct, h]

theorem not_isPunct {p q : Char} (h : t.isPunct p = true) (hne : p ≠ q) : t.isPunct q = false := by
  unfold Token.isPunct at h ⊢
  rw [Bool.and_eq_true] at h
  rw [Bool.and_eq_false_iff]
  refine .inr ?_
  rw [← Bool.not_eq_true]
  intro h'
  exact hne (List.cons.inj ((eq_of_beq h.2).symm.trans (eq_of_beq h'))).1

theorem kind_of_isKeyword {word : String} (h : t.isKeyword word = true) : t.kind = .word := by
  unfold Token.isKeyword at h
  rw [Bool.and_eq_true] at h
  exact of_decide_eq_true h.1

theorem kind_of_isPunct {p : Char} (h : t.isPunct p = true) : t.kind = .punct := by
  unfold Token.isPunct at h
  rw [Bool.and_eq_true] at h
  exact of_decide_eq_true h.1

theorem kind_of_isConjunction (h : isConjunction c = true) :
    c.isKeyword "AND" = true ∨ c.kind = .operator := by
  unfold isConjunction connects? at h
  by_cases hor : (c.isKeyword "OR" || c.isKeyword "XOR" || c.isOperator "||") = true
  · rw [if_pos hor] at h
    cases h
  · rw [if_neg hor] at h
    by_cases hand : (c.isKeyword "AND" || c.isOperator "&&") = true
    · rw [Bool.or_eq_true] at hand
      rcases hand with hand | hand
      · exact .inl hand
      · unfold Token.isOperator at hand
        rw [Bool.and_eq_true] at hand
        exact .inr (of_decide_eq_true hand.1)
    · rw [if_neg hand] at h
      cases h

/-- A word that is none of the grouping ones leaves all as it is. -/
theorem enter_plain (hl : t.isPunct '(' = false) (hr : t.isPunct ')' = false)
    (hcase : t.isKeyword "CASE" = false) (hend : t.isKeyword "END" = false)
    (hbetween : t.isKeyword "BETWEEN" = false) : enter [] t = some [] := by
  unfold enter
  simp [hl, hr, hcase, hend, hbetween]

/-- Outside all groups a connector changes nothing. -/
theorem enter_conjunction (h : isConjunction c = true) : enter [] c = some [] := by
  rcases kind_of_isConjunction h with hand | hop
  · have hkind := kind_of_isKeyword hand
    exact enter_plain (not_isPunct_of_kind (by simp [hkind])) (not_isPunct_of_kind (by simp [hkind]))
      (not_isKeyword hand (by decide)) (not_isKeyword hand (by decide))
      (not_isKeyword hand (by decide))
  · exact enter_plain (not_isPunct_of_kind (by simp [hop])) (not_isPunct_of_kind (by simp [hop]))
      (not_isKeyword_of_kind (by simp [hop])) (not_isKeyword_of_kind (by simp [hop]))
      (not_isKeyword_of_kind (by simp [hop]))

/-- Around all that is open there may be one more parenthesis. -/
theorem enter_inside {σ : List Group} (h : enter opened t = some σ) :
    enter (opened ++ [.paren]) t = some (σ ++ [.paren]) := by
  unfold enter at h ⊢
  by_cases hl : t.isPunct '(' = true
  · rw [if_pos hl] at h ⊢
    cases h
    rfl
  rw [if_neg hl] at h ⊢
  by_cases hr : t.isPunct ')' = true
  · rw [if_pos hr] at h ⊢
    rcases opened with _ | ⟨_ | _ | _, opened⟩ <;> cases h
    rfl
  rw [if_neg hr] at h ⊢
  by_cases hcase : t.isKeyword "CASE" = true
  · rw [if_pos hcase] at h ⊢
    cases h
    rfl
  rw [if_neg hcase] at h ⊢
  by_cases hend : t.isKeyword "END" = true
  · rw [if_pos hend] at h ⊢
    rcases opened with _ | ⟨_ | _ | _, opened⟩ <;> cases h <;> rfl
  rw [if_neg hend] at h ⊢
  by_cases hbetween : t.isKeyword "BETWEEN" = true
  · rw [if_pos hbetween] at h ⊢
    cases h
    rfl
  rw [if_neg hbetween] at h ⊢
  by_cases hand : t.isKeyword "AND" = true
  · rw [if_pos hand] at h ⊢
    rcases opened with _ | ⟨_ | _ | _, opened⟩ <;> cases h <;> rfl
  · rw [if_neg hand] at h ⊢
    cases h
    rfl

/-- In parentheses no connector is outside all groups. -/
theorem isSolid_inside {σ : List Group} (h : openAfter opened ts = some σ) (us : List Token) :
    isSolid (opened ++ [.paren]) (ts ++ us) = isSolid (σ ++ [.paren]) us := by
  induction ts generalizing opened with
  | nil =>
    cases h
    rfl
  | cons t ts ih =>
    rw [openAfter_cons] at h
    obtain ⟨next, hnext, hrest⟩ := Option.bind_eq_some_iff.1 h
    rw [List.cons_append, isSolid, enter_inside hnext, Option.any_some, ih hrest]
    simp

theorem openAfter_of_isSolid (h : isSolid opened ts = true) : openAfter opened ts = some [] := by
  induction ts generalizing opened with
  | nil =>
    rw [List.isEmpty_iff.1 h]
    rfl
  | cons t ts ih =>
    rw [isSolid, Bool.and_eq_true] at h
    obtain ⟨next, hnext, hrest⟩ := (Option.any_eq_true _ _).1 h.2
    rw [openAfter_cons, hnext]
    exact ih hrest

/-- Before a connector of solid tokens something is open. -/
theorem open_before_conjunction (h : isSolid opened (a ++ c :: b) = true)
    (hc : isConjunction c = true) : openAfter opened a ≠ some [] := by
  induction a generalizing opened with
  | nil =>
    rintro ⟨⟩
    simp [isSolid, hc] at h
  | cons t a ih =>
    rw [List.cons_append, isSolid, Bool.and_eq_true] at h
    obtain ⟨next, hnext, hrest⟩ := (Option.any_eq_true _ _).1 h.2
    rw [openAfter_cons, hnext]
    exact ih hrest

end Open

/-! ## Chains -/

namespace Chain

variable {ss us os : List (List Token)} {s ts a b : List Token} {c : Token}

theorem append (ha : Chain ss a) (hc : isConjunction c = true) (hb : Chain us b) :
    Chain (ss ++ us) (a ++ c :: b) := by
  induction ha with
  | last s => exact .more s hc hb
  | more s hc' _ ih =>
    rw [List.append_assoc]
    exact .more s hc' ih

/-- The number of tokens of the parts, each with the connector behind it. -/
def extent (ss : List (List Token)) : Nat := (ss.map fun s => s.length + 1).sum

theorem extent_eq (h : Chain ss ts) : extent ss = ts.length + 1 := by
  induction h with
  | last s => simp [extent]
  | more s hc h ih =>
    simp only [extent, List.map_cons, List.sum_cons, List.length_append, List.length_cons] at ih ⊢
    omega

/-- Chains are cut between their parts. -/
theorem of_append (h : Chain (ss ++ us) ts) (hs : ss ≠ []) (hu : us ≠ []) :
    ∃ a c b, ts = a ++ c :: b ∧ Chain ss a ∧ isConjunction c = true ∧ Chain us b := by
  induction ss generalizing ts with
  | nil => exact absurd rfl hs
  | cons s ss ih =>
    obtain ⟨c, rest, rfl, hc, h⟩ : ∃ c rest, ts = s ++ c :: rest ∧ isConjunction c = true ∧
        Chain (ss ++ us) rest := by
      rw [List.cons_append] at h
      generalize hl : ss ++ us = l at h
      cases h with
      | last => exact absurd (List.append_eq_nil_iff.1 hl).2 hu
      | more _ hc h => exact ⟨_, _, rfl, hc, h⟩
    by_cases hss : ss = []
    · subst hss
      exact ⟨s, c, rest, rfl, .last s, hc, h⟩
    · obtain ⟨a, c', b, rfl, ha, hc', hb⟩ := ih h hss
      exact ⟨s ++ c :: a, c', b, by simp, .more s hc ha, hc', hb⟩

/-- Nothing is open behind a chain of solid parts. -/
theorem openAfter_eq (h : Chain os ts) (hsolid : ∀ o ∈ os, isSolid [] o = true) :
    openAfter [] ts = some [] := by
  induction h with
  | last s => exact openAfter_of_isSolid (hsolid s List.mem_cons_self)
  | more s hc h ih =>
    rw [openAfter_append, openAfter_of_isSolid (hsolid s List.mem_cons_self), Option.bind_some,
      openAfter_cons, enter_conjunction hc]
    exact ih fun o ho => hsolid o (List.mem_cons_of_mem s ho)

/-- Where nothing is open before a connector, a chain of solid parts is cut there. -/
theorem split (h : Chain os (a ++ c :: b)) (hsolid : ∀ o ∈ os, isSolid [] o = true)
    (hc : isConjunction c = true) (ha : openAfter [] a = some []) :
    ∃ os₁ os₂, os = os₁ ++ os₂ ∧ Chain os₁ a ∧ Chain os₂ b := by
  generalize hts : a ++ c :: b = ts at h
  induction h generalizing a with
  | last s =>
    subst hts
    exact absurd ha (open_before_conjunction (hsolid _ List.mem_cons_self) hc)
  | @more s c' os ts hc' h ih =>
    have hs := hsolid s List.mem_cons_self
    rcases List.append_eq_append_iff.1 hts with ⟨x, rfl, hx⟩ | ⟨x, rfl, hx⟩
    · -- the place is inside or at the end of the first part
      cases x with
      | nil =>
        cases hx
        exact ⟨[_], os, rfl, by simpa using Chain.last _, h⟩
      | cons d x =>
        cases hx
        exact absurd ha (open_before_conjunction hs hc)
    · cases x with
      | nil =>
        cases hx
        exact ⟨[_], os, rfl, by simpa using Chain.last _, h⟩
      | cons d x =>
        cases hx
        rw [openAfter_append, openAfter_of_isSolid hs, Option.bind_some, openAfter_cons,
          enter_conjunction hc'] at ha
        obtain ⟨os₁, os₂, rfl, h₁, h₂⟩ := ih (fun o ho => hsolid o (List.mem_cons_of_mem s ho)) ha rfl
        exact ⟨s :: os₁, os₂, rfl, .more s hc' h₁, h₂⟩

/-- A part without connectors is a chain of its own only. -/
theorem eq_singleton (h : Chain os s) (hs : ∀ t ∈ s, isConjunction t = false) : os = [s] := by
  cases h with
  | last => rfl
  | more o hc h =>
    rename_i c os ts
    have := hs c (by simp)
    rw [hc] at this
    cases this

end Chain

/-! ## The operands of an expression -/

namespace Formula

variable {f : Formula} {v : List Token → Bool}

theorem operands_of_not_isAnd (h : f.isAnd = false) : f.operands = [f.tokens] := by
  cases f with
  | and f word g => cases h
  | atom ts => rfl
  | not word f => rfl
  | group left f right => rfl

theorem chain_operands (h : f.wellFormed = true) : Chain f.operands f.tokens := by
  induction f with
  | atom ts => exact .last ts
  | not word f ih => exact .last _
  | group left f right ih => exact .last _
  | and f word g ihf ihg =>
    simp only [wellFormed, Bool.and_eq_true] at h
    exact (ihf h.1.2).append h.1.1 (ihg h.2)

theorem solid_operands (h : f.wellFormed = true) : ∀ o ∈ f.operands, isSolid [] o = true := by
  induction f with
  | atom ts =>
    simp only [wellFormed, Bool.and_eq_true] at h
    intro o ho
    rw [List.mem_singleton.1 ho]
    exact h.1
  | not word f ih =>
    simp only [wellFormed, Bool.and_eq_true, Bool.not_eq_true'] at h
    obtain ⟨⟨hword, hand⟩, hf⟩ := h
    have hsolid : isSolid [] f.tokens = true := by
      apply ih hf
      rw [operands_of_not_isAnd hand]
      exact List.mem_singleton_self _
    intro o ho
    rw [List.mem_singleton.1 ho]
    show isSolid [] (word :: f.tokens) = true
    have hkind := kind_of_isKeyword hword
    have henter : enter [] word = some [] :=
      enter_plain (not_isPunct_of_kind (by simp [hkind])) (not_isPunct_of_kind (by simp [hkind]))
        (not_isKeyword hword (by decide)) (not_isKeyword hword (by decide))
        (not_isKeyword hword (by decide))
    have hconj : isConjunction word = false := by
      rw [← Bool.not_eq_true]
      intro h
      rcases kind_of_isConjunction h with h | h
      · rw [not_isKeyword hword (by decide)] at h
        cases h
      · rw [hkind] at h
        cases h
    rw [isSolid, hconj, henter, Option.any_some, hsolid]
    rfl
  | group left f right ih =>
    simp only [wellFormed, Bool.and_eq_true] at h
    obtain ⟨⟨hleft, hright⟩, hf⟩ := h
    have hopen : openAfter [] f.tokens = some [] := (chain_operands hf).openAfter_eq (ih hf)
    intro o ho
    rw [List.mem_singleton.1 ho]
    show isSolid [] (left :: (f.tokens ++ [right])) = true
    have hconj : ∀ t : Token, t.kind = .punct → isConjunction t = false := by
      intro t ht
      rw [← Bool.not_eq_true]
      intro h
      rcases kind_of_isConjunction h with h | h
      · rw [kind_of_isKeyword h] at ht
        cases ht
      · rw [h] at ht
        cases ht
    have henter : enter [] left = some [.paren] := if_pos hleft
    have hleave : enter [.paren] right = some [] := by
      unfold enter
      rw [if_neg (by simp [not_isPunct hright (q := '(') (by decide)]), if_pos hright]
    have hinside : isSolid [.paren] (f.tokens ++ [right]) = isSolid [.paren] [right] :=
      isSolid_inside hopen [right]
    rw [isSolid, hconj left (kind_of_isPunct hleft), henter, Option.any_some, hinside, isSolid,
      hconj right (kind_of_isPunct hright), hleave]
    rfl
  | and f word g ihf ihg =>
    simp only [wellFormed, Bool.and_eq_true] at h
    intro o ho
    rcases List.mem_append.1 ho with ho | ho
    · exact ihf h.1.2 o ho
    · exact ihg h.2 o ho

/-- If an expression is true, so is every comparison among its operands. -/
theorem truth_of_mem_operands {o : List Token} (hf : f.wellFormed = true) (h : f.truth v = true)
    (ho : o ∈ f.operands)
    (hfirst : ∀ t ∈ o.head?, t.isKeyword "NOT" = false ∧ t.isPunct '(' = false) : v o = true := by
  induction f with
  | atom ts =>
    rw [List.mem_singleton.1 ho]
    exact h
  | not word f ih =>
    simp only [wellFormed, Bool.and_eq_true] at hf
    rw [List.mem_singleton.1 ho] at hfirst
    have hno := (hfirst word rfl).1
    rw [hf.1.1] at hno
    cases hno
  | group left f right ih =>
    simp only [wellFormed, Bool.and_eq_true] at hf
    rw [List.mem_singleton.1 ho] at hfirst
    have hno := (hfirst left rfl).2
    rw [hf.1.1] at hno
    cases hno
  | and f word g ihf ihg =>
    simp only [wellFormed, Bool.and_eq_true] at hf
    rw [truth, Bool.and_eq_true] at h
    rcases List.mem_append.1 ho with ho | ho
    · exact ihf hf.1.2 h.1 ho
    · exact ihg hf.2 h.2 ho

end Formula

end TypedMirror.Grammar
