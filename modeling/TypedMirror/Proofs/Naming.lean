import TypedMirror.Proofs.Idempotence

/-!
# Names of mirrors

The name of a mirror is its source, `_mm_` and its type, one after the other without a mark between
them.  Sources are chosen freely, and may hold `_mm_` and names of types themselves; but what a type
gives has only one `m` in it, so that the last `_mm_` tells where the source ends.

* `Mirror.typeSuffix_inj` — a type and its arguments can be told from what they give;
* `Mirror.nameFor_inj` — and with the source from the name;
* `Mirror.Defined.id_eq_iff` — mirrors of one name agree in these.
-/

namespace TypedMirror

theorem Numeral.write_injective : Function.Injective write := by
  intro n k h
  have hread := read_write n
  rw [h, read_write k] at hread
  exact (Option.some.inj hread).symm

/-! ## Names -/

namespace ValueType

variable {args args' : List Nat}

theorem isDigit_of_mem_joinArgs {c : Char} (h : c ∈ joinArgs ['_'] args) :
    c = '_' ∨ c.isDigit := by
  rcases Text.mem_joinWith h with h | ⟨t, ht, hc⟩
  · exact .inl (List.mem_singleton.1 h)
  · obtain ⟨n, -, rfl⟩ := List.mem_map.1 ht
    exact .inr (Numeral.isDigit_of_mem_write hc)

/-- The arguments can be told from their numerals, since no numeral holds a `_`. -/
theorem joinArgs_inj (hne : args ≠ []) (hne' : args' ≠ [])
    (h : joinArgs ['_'] args = joinArgs ['_'] args') : args = args' := by
  have hsplit : ∀ ns : List Nat, ns ≠ [] →
      (joinArgs ['_'] ns).splitOn '_' = ns.map Numeral.write := by
    intro ns hns
    refine List.splitOn_intercalate '_' ?_ (by simpa using hns)
    intro t ht hmem
    obtain ⟨n, -, rfl⟩ := List.mem_map.1 ht
    exact Nat.underscore_not_in_toDigits hmem
  refine List.map_injective_iff.2 Numeral.write_injective ?_
  rw [← hsplit args hne, h, hsplit args' hne']

end ValueType

namespace Mirror

variable {m m' : Mirror} {t t' : ValueType} {args args' : List Nat} {source source' : Text}

/-- The keyword is told by its first letter. -/
theorem typeSuffix_inj (h : typeSuffix t args = typeSuffix t' args') : t = t' ∧ args = args' := by
  have hhead : ∀ (t : ValueType) (args : List Nat),
      (typeSuffix t args).head? = (Text.lower t.keyword).head? := by
    intro t args
    cases t <;> rfl
  have ht : t = t' := by
    have hheads := hhead t args
    rw [h, hhead] at hheads
    cases t <;> cases t' <;> first | rfl | exact absurd hheads (by decide)
  subst ht
  refine ⟨rfl, ?_⟩
  have hargs := List.append_cancel_left h
  cases args with
  | nil =>
    cases args' with
    | nil => rfl
    | cons _ _ => simp at hargs
  | cons n ns =>
    cases args' with
    | nil => simp at hargs
    | cons n' ns' => exact ValueType.joinArgs_inj nofun nofun (List.tail_eq_of_cons_eq hargs)

/-- What a type gives has at most one `m`, that of `decimal`. -/
theorem count_typeSuffix (t : ValueType) (args : List Nat) :
    (typeSuffix t args).count 'm' ≤ 1 := by
  have hkeyword : (Text.lower t.keyword).count 'm' ≤ 1 := by cases t <;> decide
  have hargs :
      (if args.isEmpty then [] else '_' :: ValueType.joinArgs ['_'] args).count 'm' = 0 := by
    rw [List.count_eq_zero]
    split
    · exact List.not_mem_nil
    · intro hm
      rcases List.mem_cons.1 hm with hm | hm
      · exact absurd hm (by decide)
      · exact absurd (ValueType.isDigit_of_mem_joinArgs hm) (by decide)
  rw [typeSuffix, List.count_append, hargs]
  exact hkeyword

/-- Of two sources before a name, the longer one would leave a `mm` to the other's type. -/
theorem eq_nil_of_split {d b b' : Text} (hb : b.count 'm' ≤ 1)
    (h : "_mm_".toList ++ b = d ++ ("_mm_".toList ++ b')) : d = [] := by
  have hmm : "_mm_".toList = ['_', 'm', 'm', '_'] := rfl
  rw [hmm] at h
  -- The longer source would end in a part of the mark, and then a whole one would follow in `b`.
  match d with
  | [] => rfl
  | [_] => simp at h
  | [_, _] => simp at h
  | [_, _, _] =>
    obtain ⟨-, -, -, rfl⟩ : _ ∧ _ ∧ _ ∧ b = _ := by simpa using h
    simp at hb
  | _ :: _ :: _ :: _ :: d =>
    obtain ⟨-, -, -, -, rfl⟩ : _ ∧ _ ∧ _ ∧ _ ∧ b = _ := by simpa using h
    simp at hb
    omega

theorem nameFor_inj (h : nameFor source t args = nameFor source' t' args') :
    source = source' ∧ t = t' ∧ args = args' := by
  unfold nameFor at h
  rw [List.append_assoc, List.append_assoc] at h
  have hsource : source = source' := by
    rcases List.append_eq_append_iff.1 h with ⟨d, hd, hrest⟩ | ⟨d, hd, hrest⟩
    · rw [hd, eq_nil_of_split (count_typeSuffix t args) hrest, List.append_nil]
    · rw [hd, eq_nil_of_split (count_typeSuffix t' args') hrest, List.append_nil]
  subst hsource
  exact ⟨rfl, typeSuffix_inj (List.append_cancel_left (List.append_cancel_left h))⟩

/-- The name is told by the source, the type and the arguments, also after keys have been added. -/
theorem Defined.id_eq (h : m.Defined) : m.id = nameFor m.source m.valueType m.typeArgs := by
  induction h with
  | @define c source t args m h =>
    unfold Mirror.define at h
    cases htable : c.get? source with
    | none => simp [htable] at h
    | some table =>
      rw [htable] at h
      obtain ⟨_, -, h⟩ := bind_eq_ok.1 h
      obtain ⟨_, -, h⟩ := bind_eq_ok.1 h
      cases h
      rw [Catalog.fullName_of_get? htable]
  | addKey _ hadd ih =>
    rw [addKey_eq_ok hadd]
    exact ih

theorem Defined.id_eq_iff (h : m.Defined) (h' : m'.Defined) : m.id = m'.id ↔
    m.source = m'.source ∧ m.valueType = m'.valueType ∧ m.typeArgs = m'.typeArgs := by
  rw [h.id_eq, h'.id_eq]
  constructor
  · exact nameFor_inj
  · rintro ⟨hsource, htype, hargs⟩
    rw [hsource, htype, hargs]

end Mirror

end TypedMirror
