import Mathlib.Data.List.Basic
import Mathlib.Data.List.TakeWhile
import TypedMirror.Proofs.Passages
import TypedMirror.Query.Parse

/-!
# The contents of literals

What stands in a literal does not matter to how a query is read.  Other contents that the literal's
quotes enclose as well give the same deflated query, and so the same reading, with the new contents
in the literal's place.

* `Deflated.exists_place` — where a literal stands;
* `Query.parse_other_contents` — the same query with other contents there.
-/

namespace TypedMirror

namespace Passage

variable {t : Text} {ps qs : List Passage} {p : Passage} {tail s : Text}

/-- Text without quotes holds no literal. -/
theorem split_of_noQuote (h : ∀ c ∈ t, isQuote c = false) : split t = ([], t) := by
  have hdrop : t.dropWhile (!isQuote ·) = [] := List.dropWhile_eq_nil_iff.2 fun c hc => by
    rw [h c hc]
    rfl
  rw [split]
  split
  · rfl
  · rename_i heq
    cases hdrop.symm.trans heq

/-- The passage with other contents between its quotes. -/
def refill (p : Passage) (s : Text) : Passage := { p with contents := s }

theorem Sound.refill (h : p.Sound) (hs : Quoted.close p.quote (s ++ [p.quote]) = some (s, [])) :
    (p.refill s).Sound :=
  ⟨h.before, h.quote, hs⟩

/-- The passages that are found in a text are followed by text that holds no literal. -/
theorem exists_tail (h : (split t).1 = ps) :
    ∃ tail, t = ps.flatMap text ++ tail ∧ (∀ x ∈ ps, x.Sound) ∧ split tail = ([], tail) := by
  subst h
  exact ⟨(split t).2, (text_split t).symm, fun _ => sound_of_mem_split, split_tail t⟩

theorem split_refill (h : ∀ x ∈ ps ++ p :: qs, x.Sound) (htail : split tail = ([], tail))
    (hs : Quoted.close p.quote (s ++ [p.quote]) = some (s, [])) :
    split ((ps ++ p.refill s :: qs).flatMap text ++ tail) = (ps ++ p.refill s :: qs, tail) := by
  obtain ⟨hps, hpqs⟩ := List.forall_mem_append.1 h
  obtain ⟨hp, hqs⟩ := List.forall_mem_cons.1 hpqs
  exact split_flatMap (List.forall_mem_append.2 ⟨hps, List.forall_mem_cons.2 ⟨hp.refill hs, hqs⟩⟩)
    htail

end Passage

namespace Deflated

variable {query c : Text} {ps qs : List Passage} {p : Passage} {tail : Text} {id : Nat}

theorem ofQuery_of_split (h : Passage.split query = (ps, tail)) :
    ofQuery query = ⟨textFrom 1 ps tail, ps.map (·.contents)⟩ := by
  unfold ofQuery
  rw [h]

theorem textFrom_append (id : Nat) (ps : List Passage) (p : Passage) (qs : List Passage)
    (tail : Text) : textFrom id (ps ++ p :: qs) tail = textFrom id ps p.before ++ p.quote ::
      (marker (id + ps.length)).write ++ p.quote :: textFrom (id + ps.length + 1) qs tail := by
  induction ps generalizing id with
  | nil => simp [textFrom]
  | cons x ps ih =>
    rw [List.cons_append, textFrom, textFrom, ih, List.length_cons, Nat.add_comm ps.length,
      ← Nat.add_assoc]
    simp

/-- The contents of a passage are seen in its literal only. -/
theorem ofQuery_refill {query' s : Text} (h : Passage.split query = (ps ++ p :: qs, tail))
    (h' : Passage.split query' = (ps ++ p.refill s :: qs, tail)) :
    (ofQuery query').query = (ofQuery query).query ∧
      (ofQuery query').literals = (ofQuery query).literals.set ps.length s := by
  rw [ofQuery_of_split h, ofQuery_of_split h']
  constructor
  · dsimp only
    rw [textFrom_append, textFrom_append]
    rfl
  · simp [Passage.refill]

/-- A literal stands in one of the passages, as many of them in front as there are literals before
it. -/
theorem exists_place (h : (ofQuery query).literal? id = some c) : ∃ ps p qs,
    (Passage.split query).1 = ps ++ p :: qs ∧ id = ps.length + 1 ∧ p.contents = c := by
  cases id with
  | zero => cases h
  | succ i =>
    have hmap : ((Passage.split query).1.map (·.contents))[i]? = some c := h
    rw [List.getElem?_map] at hmap
    obtain ⟨p, hp, hc⟩ := Option.map_eq_some_iff.1 hmap
    obtain ⟨hi, hget⟩ := List.getElem?_eq_some_iff.1 hp
    refine ⟨(Passage.split query).1.take i, p, (Passage.split query).1.drop (i + 1), ?_, ?_, hc⟩
    · rw [← hget, List.getElem_cons_drop, List.take_append_drop]
    · rw [List.length_take, Nat.min_eq_left (Nat.le_of_lt hi)]

theorem literal?_set {d d' : Deflated} {i : Nat} {s : Text} (hi : i < d.literals.length)
    (h : d'.literals = d.literals.set i s) (id : Nat) :
    d'.literal? id = if id = i + 1 then some s else d.literal? id := by
  cases id with
  | zero => rfl
  | succ id =>
    show d'.literals[id]? = if id + 1 = i + 1 then some s else d.literals[id]?
    rw [h, List.getElem?_set]
    by_cases hid : i = id
    · rw [if_pos hid, if_pos (congrArg (· + 1) hid.symm), if_pos hi]
    · rw [if_neg hid, if_neg fun h => hid (Nat.succ.inj h).symm]

end Deflated

namespace Query

open Passage Deflated

/-- Two queries of one deflated form are read alike, each with its own literals. -/
theorem parse_of_query_eq {query query' : Text} {f : List Text → List Text}
    (hquery : (ofQuery query').query = (ofQuery query).query)
    (hliterals : (ofQuery query').literals = f (ofQuery query).literals) (hf : f [] = []) :
    parse query' = (parse query).map fun q => { q with literals := f q.literals } := by
  unfold parse
  dsimp only
  rw [hquery, hliterals]
  cases Grammar.operation? (Token.read (ofQuery query).query) with
  | none =>
    show Except.ok unknown = Except.ok { unknown with literals := f unknown.literals }
    rw [show unknown.literals = [] from rfl, hf]
    rfl
  | some p =>
    dsimp only
    cases Grammar.readStatement (ofQuery query).query p.1 p.2 with
    | error e => rfl
    | ok r => rfl

/-- Each literal of a query stands between two quotes, where the deflated query has its marker.
Whatever else is put between them, as long as it ends where the second quote stands, only the
contents of that literal change: the deflated query and the other literals are the same, and either
both queries are refused for one reason, or both are read alike. -/
theorem parse_other_contents {query c : Text} {id : Nat}
    (h : (ofQuery query).literal? id = some c) :
    ∃ before quote after, query = before ++ quote :: c ++ quote :: after ∧ isQuote quote = true ∧
      (∃ rest, (ofQuery query).query =
        (ofQuery before).query ++ quote :: (marker id).write ++ quote :: rest) ∧
      (ofQuery before).literals.length + 1 = id ∧
      ∀ s, Quoted.close quote (s ++ [quote]) = some (s, []) →
        let query' := before ++ quote :: s ++ quote :: after
        (ofQuery query').query = (ofQuery query).query ∧
        (ofQuery query').literals = (ofQuery query).literals.set (id - 1) s ∧
        (∀ i, (ofQuery query').literal? i =
          if i = id then some s else (ofQuery query).literal? i) ∧
        parse query' = (parse query).map fun q =>
          { q with literals := q.literals.set (id - 1) s } := by
  obtain ⟨ps, p, qs, hps, rfl, rfl⟩ := exists_place h
  obtain ⟨tail, rfl, hsound, htail⟩ := exists_tail hps
  have hp := hsound p (by simp)
  have hsplit := split_flatMap hsound htail
  have hbefore : ofQuery (ps.flatMap text ++ p.before) =
      ⟨textFrom 1 ps p.before, ps.map (·.contents)⟩ :=
    ofQuery_of_split (split_flatMap (fun x hx => hsound x (List.mem_append_left _ hx))
      (split_of_noQuote hp.before))
  refine ⟨ps.flatMap text ++ p.before, p.quote, qs.flatMap text ++ tail, ?_, hp.quote, ?_, ?_, ?_⟩
  · simp [text]
  · rw [ofQuery_of_split hsplit, hbefore, textFrom_append, Nat.add_comm 1]
    exact ⟨_, rfl⟩
  · rw [hbefore]
    simp
  intro s hs query'
  have hquery' : query' = (ps ++ p.refill s :: qs).flatMap text ++ tail := by
    simp [query', text, refill]
  obtain ⟨hquery, hliterals⟩ := ofQuery_refill hsplit (hquery' ▸ split_refill hsound htail hs)
  have hlength : ps.length < (ofQuery ((ps ++ p :: qs).flatMap text ++ tail)).literals.length := by
    rw [ofQuery_of_split hsplit]
    simp
  exact ⟨hquery, hliterals, literal?_set hlength hliterals,
    parse_of_query_eq (f := (·.set ps.length s)) hquery hliterals rfl⟩

/-- A literal in whose place stands what looks like the end of the query and a marker. -/
theorem parse_other_contents_sample :
    let query := "SELECT * FROM t WHERE k = 'v'".toList
    let query' := "SELECT * FROM t WHERE k = '\\' OR [[table:u]] -- '".toList
    (ofQuery query).literal? 1 = some "v".toList ∧ (ofQuery query').query = (ofQuery query).query ∧
      parse query' = (parse query).map fun q =>
        { q with literals := q.literals.set 0 "\\' OR [[table:u]] -- ".toList } := by
  intro query query'
  have hliteral : (ofQuery query).literal? 1 = some "v".toList := by decide +kernel
  obtain ⟨before, quote, after, htext, -, -, -, hother⟩ := parse_other_contents hliteral
  -- there is one `v` in the query
  have hplace : ∀ n < 29, query[n + 1]? = some 'v' → n = 26 := by decide +kernel
  have hlength : before.length = 26 := by
    refine hplace _ ?_ (by rw [htext]; simp)
    have := congrArg List.length htext
    simp [query] at this
    omega
  obtain ⟨rfl, hrest⟩ : before = query.take 26 ∧ quote :: 'v' :: quote :: after = query.drop 26 := by
    rw [htext, ← hlength]
    simp
  cases hrest
  obtain ⟨hsame, -, -, hparse⟩ := hother "\\' OR [[table:u]] -- ".toList (by decide +kernel)
  exact ⟨hliteral, hsame, hparse⟩

end Query

end TypedMirror
