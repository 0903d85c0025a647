import Formulary.Proofs.Arith.RoundTrip

/-!
# Parentheses

No text that is read as a tree opens fewer parentheses or nests less deep than the text printed for
it.  So a printed tree stays within the limit of depth of a parser that has read it before.

1. The nesting of a text, counted from its tokens, is that of its derivation (`nesting_of_derives`).
2. A derivation of a tree at a level that the tree is too loose for has a group around the tree, so
   every derivation weighs at least as much as the tree (`covers_of_derives`).
3. The printed text is one of the least weight.
-/

namespace Formulary.Arith

open Chain (Derives Form)

variable {p : Profile} {d : Dialect}

/-! ## 1. The nesting of a text -/

/-- The nesting of the tokens `w` within `depth` parentheses.  `signs` unary operators have just
been passed, and `due` tells whether an operand is to come, so that an operator is a unary one. -/
def nestingFrom (depth signs : Nat) (due : Bool) : List Token → Nat
  | [] => 0
  | t :: w =>
    if t.code == Symbol.leftParen.kind.code then nestingFrom (depth + 1) 0 true w
    else if t.code == Symbol.rightParen.kind.code then nestingFrom (depth - 1) 0 false w
    else if t.code == Symbol.comma.kind.code then nestingFrom depth 0 true w
    else if t.code == Symbol.number.kind.code || t.code == Symbol.ident.kind.code then
      max (depth + signs + 1) (nestingFrom depth 0 false w)
    else if due then nestingFrom depth (signs + 1) true w
    else nestingFrom depth 0 true w

/-- The nesting of a text: 1 more than the most groups, arguments and unary operators that one of
its operands stands in. -/
def nesting (w : List Token) : Nat := nestingFrom 0 0 true w

section

variable {depth signs : Nat} {due : Bool} {t : Token} {w : List Token}

theorem nestingFrom_leftParen (ht : t.code = Symbol.leftParen.code) :
    nestingFrom depth signs due (t :: w) = nestingFrom (depth + 1) 0 true w := by
  simp [nestingFrom, ht, Symbol.kind]

theorem nestingFrom_rightParen (ht : t.code = Symbol.rightParen.code) :
    nestingFrom depth signs due (t :: w) = nestingFrom (depth - 1) 0 false w := by
  simp [nestingFrom, ht, Symbol.kind, Symbol.code]

theorem nestingFrom_comma (ht : t.code = Symbol.comma.code) :
    nestingFrom depth signs due (t :: w) = nestingFrom depth 0 true w := by
  simp [nestingFrom, ht, Symbol.kind, Symbol.code]

theorem nestingFrom_atom (ht : t.code = Symbol.number.code ∨ t.code = Symbol.ident.code) :
    nestingFrom depth signs due (t :: w)
      = max (depth + signs + 1) (nestingFrom depth 0 false w) := by
  rcases ht with ht | ht
  · simp [nestingFrom, ht, Symbol.kind, Symbol.code]
  · simp [nestingFrom, ht, Symbol.kind, Symbol.code]

theorem nestingFrom_operator (ht : 3 ≤ t.code ∧ t.code ≤ 8) :
    nestingFrom depth signs due (t :: w)
      = if due then nestingFrom depth (signs + 1) true w else nestingFrom depth 0 true w := by
  have hne : ∀ s : Symbol, s.isOperator = false → (t.code == s.kind.code) = false := by
    intro s hs
    rw [beq_eq_false_iff_ne]
    intro heq
    rw [heq] at ht
    revert hs ht
    cases s <;> decide
  simp only [nestingFrom, hne .leftParen rfl, hne .rightParen rfl, hne .comma rfl, hne .number rfl,
    hne .ident rfl, Bool.or_self, Bool.false_eq_true, ↓reduceIte]

end

/-- What a derivation adds to the nesting of the text it stands in. -/
def Deepens : Form → Nat → List Token → Prop
  | .operand, n, w => ∀ depth signs rest,
      nestingFrom depth signs true (w ++ rest)
        = max (depth + signs + n) (nestingFrom depth 0 false rest)
  | _, n, w => ∀ depth rest,
      nestingFrom depth 0 true (w ++ rest) = max (depth + n) (nestingFrom depth 0 false rest)

theorem deepens_of_derives (h : Compiled p d) {form : Form} {n : Nat} {w : List Token}
    {ts : List Formula}
    (hd : Derives d.parser d.parser.innermost form n w ts) : Deepens form n w := by
  have hident : ∀ {code}, code ∈ d.parser.identifiers →
      code = Symbol.number.code ∨ code = Symbol.ident.code := by
    intro code hcode
    rw [h.identifiers] at hcode
    simpa using hcode
  have hleft : d.parser.leftParen.code = Symbol.leftParen.code := by rw [h.leftParen]; rfl
  have hright : d.parser.rightParen.code = Symbol.rightParen.code := by rw [h.rightParen]; rfl
  have hcomma : d.parser.comma.code = Symbol.comma.code := by rw [h.comma]; rfl
  induction hd with
  | tighter _ _ ih => exact ih
  | binary ho _ _ _ ihl ihr =>
    obtain ⟨name, -, hcode⟩ := h.operator_iff.mp ho.1
    intro depth rest
    rw [List.append_assoc, List.cons_append, ihl, nestingFrom_operator hcode.bounds,
      if_neg (by decide), ihr]
    omega
  | call hf _ _ ho hc _ ih =>
    intro depth rest
    simp only [List.cons_append, List.append_assoc, List.nil_append]
    rw [nestingFrom_atom (hident hf), nestingFrom_leftParen (ho.trans hleft), ih,
      nestingFrom_rightParen (hc.trans hright), Nat.add_sub_cancel]
    omega
  | group ho hc _ ih =>
    intro depth rest
    simp only [List.cons_append, List.append_assoc, List.nil_append]
    rw [nestingFrom_leftParen (ho.trans hleft), ih, nestingFrom_rightParen (hc.trans hright),
      Nat.add_sub_cancel]
    omega
  | operand _ _ ih => exact fun depth rest => ih depth 0 rest
  | unary ho _ _ ih =>
    obtain ⟨name, -, hcode⟩ := h.unary_iff.mp ho
    intro depth signs rest
    rw [List.cons_append, nestingFrom_operator hcode.bounds, if_pos rfl, ih]
    omega
  | atom ha _ =>
    intro depth signs rest
    rw [List.cons_append, List.nil_append, nestingFrom_atom (hident ha)]
  | last _ ih => exact ih
  | more hc _ _ ihu ihw =>
    intro depth rest
    rw [List.append_assoc, List.cons_append, ihu, nestingFrom_comma (hc.trans hcomma), ihw]
    omega

/-- **The nesting of a formula is that of its derivation.** -/
theorem nesting_of_derives (h : Compiled p d) {i n : Nat} {w : List Token} {t : Formula}
    (hd : Derives d.parser d.parser.innermost (.level i) n w [t]) : nesting w = n := by
  have hdeep := deepens_of_derives h hd 0 []
  rw [List.append_nil] at hdeep
  rw [nesting, hdeep, nestingFrom]
  omega

/-! ## 2. Every derivation weighs at least as much as its tree -/

/-- Tokens that nest `n` deep weigh at least `v`. -/
def Bears (n : Nat) (w : List Token) (v : Weight) : Prop := v.nesting ≤ n ∧ v.openings ≤ openings w

namespace Bears

variable {m n : Nat} {u w : List Token} {v v' : Weight}

theorem of_enclosed (h : Bears n w v.enclosed) : Bears n w v :=
  ⟨Nat.le_of_succ_le h.1, Nat.le_of_succ_le h.2⟩

theorem cons (t : Token) (h : Bears n w v) : Bears n (t :: w) v := by
  refine ⟨h.1, ?_⟩
  rw [← List.singleton_append, openings_append]
  exact Nat.le_add_left_of_le h.2

theorem under (h : Bears n w v) : Bears (n + 1) w v.under := ⟨Nat.succ_le_succ h.1, h.2⟩

theorem beside (o : Token) (h : Bears m u v) (h' : Bears n w v') :
    Bears (max m n) (u ++ o :: w) (v.beside v') := by
  have hw := (h'.cons o).2
  refine ⟨max_le_max h.1 h'.1, ?_⟩
  rw [openings_append]
  exact Nat.add_le_add h.2 hw

/-- Tokens within parentheses. -/
theorem enclosed {o : Token} (c : Token) (ho : o.code = Symbol.leftParen.code) (h : Bears n w v) :
    Bears (n + 1) (o :: (w ++ [c])) v.enclosed := by
  refine ⟨Nat.succ_le_succ h.1, ?_⟩
  have hopening : openings (o :: (w ++ [c])) = openings (w ++ [c]) + 1 := by
    rw [openings, List.countP_cons, ho]
    rfl
  rw [hopening, openings_append]
  exact Nat.succ_le_succ (Nat.le_add_right_of_le h.2)

end Bears

/-- A tree that is read at a level either fits it or has a group around it. -/
def Stands (d : Dialect) (i n : Nat) (w : List Token) (t : Formula) : Prop :=
  i ≤ Prints.bound d t ∧ Bears n w (weight t) ∨ Bears n w (weight t).enclosed

namespace Stands

variable {i n : Nat} {w : List Token} {t : Formula}

theorem bears (h : Stands d i n w t) : Bears n w (weight t) := by
  rcases h with ⟨-, h⟩ | h
  · exact h
  · exact h.of_enclosed

/-- The parentheses that the printer sets are in the text if the tree is too loose for its place. -/
theorem grouped {needed : Bool} (h : Stands d i n w t)
    (hneeded : needed = true → Prints.bound d t < i) : Bears n w ((weight t).grouped needed) := by
  cases needed with
  | false => exact h.bears
  | true =>
    rcases h with ⟨hle, -⟩ | h
    · exact absurd (hneeded rfl) (Nat.not_lt.mpr hle)
    · exact h

end Stands

/-- What the tokens of a derivation weigh. -/
def Covers (d : Dialect) : Form → Nat → List Token → List Formula → Prop
  | .level i, n, w, ts => ∀ t ∈ ts, Stands d i n w t
  | .operand, n, w, ts => ∀ t ∈ ts, d.parser.levels.length ≤ Prints.bound d t ∧ Bears n w (weight t)
  | .arguments, n, w, ts => Bears n w (Weight.all (weights ts))

/-- A tree that binds looser than a level is not read at that level. -/
theorem WellFormed.bound_lt {below : Bool} {t : Formula} (ht : WellFormed p below t) {i : Nat}
    (hi : (i : Int) ≤ unaryPrecedence) (hprec : t.value.precedence < i) : Prints.bound d t < i := by
  cases ht with
  | binary _ _ _ => exact Int.ofNat_lt.mp hprec
  | const _ => exact absurd hprec (Int.not_lt.mpr (Int.le_trans hi (Int.sub_le_self _ (by decide))))
  | var _ _ => exact absurd hprec (Int.not_lt.mpr (Int.le_trans hi (Int.sub_le_self _ (by decide))))
  | unary _ _ => exact absurd hprec (Int.not_lt.mpr hi)
  | call _ _ _ =>
    exact absurd hprec (Int.not_lt.mpr (Int.le_trans hi (Int.sub_le_self _ (by decide))))

/-- **Every derivation weighs at least as much as the printed text of its tree.** -/
theorem covers_of_derives (h : Compiled p d) (hsize : (p.levels.length : Int) < operandPrecedence)
    {form : Form} {n : Nat} {w : List Token} {ts : List Formula}
    (hd : Derives d.parser d.parser.innermost form n w ts) (hw : ∀ t ∈ w, Spelled t) :
    Covers d form n w ts := by
  have hleft : d.parser.leftParen.code = Symbol.leftParen.code := by rw [h.leftParen]; rfl
  induction hd with
  | tighter _ _ ih =>
    intro t ht
    exact (ih hw t ht).imp_left (And.imp_left Nat.le_of_succ_le)
  | @binary i m n u w o v left right ho hv hl hr ihl ihr =>
    have hu : ∀ t ∈ u, Spelled t := fun t ht => hw t (by simp [ht])
    have hw' : ∀ t ∈ w, Spelled t := fun t ht => hw t (by simp [ht])
    obtain ⟨name, -, hcode⟩ := h.operator_iff.mp ho.1
    have hlast : p.ListsLast i o.value := by
      rw [(hw o (by simp)).value_eq hcode]
      exact (h.innermost_iff hcode).mp ho
    have hi : i < p.levels.length := by
      rw [← h.length_levels]
      exact ho.1.lt
    rw [h.convert] at hv
    obtain rfl := Except.ok.inj hv
    rw [hlast.levelOf_eq]
    intro t ht
    obtain rfl := List.mem_singleton.mp ht
    refine .inl ⟨Nat.le_refl _, ?_⟩
    -- a child in parentheses binds looser than its place, so the text has a group around it too
    refine .beside o ((ihl hu left (by simp)).grouped fun hneeded => ?_)
      ((ihr hw' right (by simp)).grouped fun hneeded => ?_)
    · have hwf := shapes_of_derives h hl hu left (by simp)
      exact hwf.bound_lt (by unfold unaryPrecedence; omega) (of_decide_eq_true hneeded)
    · have hwf := shapes_of_derives h hr hw' right (by simp)
      refine hwf.bound_lt (by unfold unaryPrecedence; omega) ?_
      have := of_decide_eq_true hneeded
      push_cast
      omega
  | @call n f opening closing w v args _ _ hv ho _ _ ih =>
    rw [h.convert] at hv
    obtain rfl := Except.ok.inj hv
    intro t ht
    obtain rfl := List.mem_singleton.mp ht
    have hargs := ih fun t ht => hw t (by simp [ht])
    exact .inl ⟨Nat.le_refl _, (hargs.enclosed closing (ho.trans hleft)).cons f⟩
  | @group n opening closing w t ho _ _ ih =>
    intro u hu
    have hinner := (ih (fun t ht => hw t (by simp [ht])) u hu).bears
    exact .inr (hinner.enclosed closing (ho.trans hleft))
  | operand _ _ ih => exact fun t ht => .inl (ih hw t ht)
  | @unary n o w v t _ hv _ ih =>
    rw [h.convert] at hv
    obtain rfl := Except.ok.inj hv
    intro u hu
    obtain rfl := List.mem_singleton.mp hu
    obtain ⟨-, hoperand⟩ := ih (fun t ht => hw t (by simp [ht])) t (by simp)
    exact ⟨Nat.le_refl _, hoperand.under.cons o⟩
  | @atom a v ha hv =>
    rw [h.convert] at hv
    intro t ht
    obtain rfl := List.mem_singleton.mp ht
    rw [h.identifiers] at ha
    rcases convert_atom (hw a (by simp)) ha hv with ⟨x, rfl, -⟩ | ⟨rfl, -⟩
    · exact ⟨Nat.le_refl _, Nat.le_refl _, Nat.zero_le _⟩
    · exact ⟨Nat.le_refl _, Nat.le_refl _, Nat.zero_le _⟩
  | @last n w t _ ih =>
    have hsingle : Weight.all (weights [t]) = weight t := by
      simp [weights, Weight.all, Weight.beside, Weight.zero]
    rw [Covers, hsingle]
    exact (ih hw t (by simp)).bears
  | @more m n u w comma t ts _ _ _ ihu ihw =>
    have hfirst := (ihu (fun t ht => hw t (by simp [ht])) t (by simp)).bears
    exact hfirst.beside comma (ihw fun t ht => hw t (by simp [ht]))

/-! ## 3. The printed text -/

/-- **No text of a tree opens fewer parentheses or nests less deep than the printed one**, which is
therefore read back by the parser that has read the tree, whatever its limit of depth.

The levels of a profile are counted by a machine integer, and the greatest one stands for the
precedence of an operand (`hsize`). -/
theorem format_fewest_parentheses (hd : Dialect.compile p = .ok d)
    (hsize : (p.levels.length : Int) < operandPrecedence) {s : Text.Source} {t : Formula}
    (ht : d.parse s = .ok t) :
    openings (tokens (.ofString (format t))) ≤ openings (tokens s) ∧
      nesting (tokens (.ofString (format t))) ≤ nesting (tokens s) ∧
      d.parse (.ofString (format t)) = .ok t ∧ Formula.same t t = true := by
  have h := Dialect.compiled hd
  have hwf := wellFormed_of_parse h ht
  have hprints := prints_format_formula h hwf
  obtain ⟨n, hallows, hderives⟩ := derives_of_parse h ht
  obtain ⟨-, -, -, hprinted, hopenings⟩ := untilEnd_of_prints hprints
  have hcovers := covers_of_derives h hsize hderives (spelled_of_scan s)
  obtain ⟨hnest, hopen⟩ := (hcovers t (by simp)).bears
  refine ⟨?_, ?_, parse_of_prints h hprints (hallows.imp_right (Nat.le_trans hnest)), hwf.same_self⟩
  · rw [hopenings]
    exact hopen
  · rw [nesting_of_derives h hprinted, nesting_of_derives h hderives]
    exact hnest

/-- **Within 3 levels of depth `((a)) - (b - -sin)` is read, and so is `a - (b - -sin)`**, the text
that is printed for it. -/
theorem format_fewest_parentheses_nestedDifference :
    ∃ d, Dialect.compile { Profile.standard with maxDepth := 3 } = .ok d ∧
      d.parse (.ofString "((a)) - (b - -sin)") = .ok nestedDifference ∧
      openings (tokens (.ofString (format nestedDifference)))
        ≤ openings (tokens (.ofString "((a)) - (b - -sin)")) ∧
      d.parse (.ofString (format nestedDifference)) = .ok nestedDifference := by
  obtain ⟨d, hd⟩ : ∃ d, Dialect.compile { Profile.standard with maxDepth := 3 } = .ok d := ⟨_, rfl⟩
  have h := Dialect.compiled hd
  have hlevels : d.parser.levels.length = 3 := h.length_levels
  -- the text as it is written: two groups on the left, one on the right
  have hleft : Prints d (.level 0) ⟨3, 2⟩ "((a))".toList [.leaf (.var "a")] := by
    have ha := (Prints.word_level h (by decide : isWord "a" = true) (by decide)).loosen (i := 0)
      (Nat.le_refl _) (Nat.zero_le _)
    have hgroup := (ha.group h).loosen (Nat.le_refl _) (Nat.zero_le _)
    exact (hgroup.group h).loosen (Nat.le_refl _) (Nat.zero_le _)
  have hsign : Prints d (.level 1) ⟨2, 0⟩ "-sin".toList [.node (.unary "-") [.leaf (.var "sin")]] :=
    ((Prints.word h (by decide : isWord "sin" = true)).unary h
      (by decide : "-" ∈ Profile.standard.unary)).operand_level.loosen (Nat.le_refl _) (by omega)
  have hright := ((Prints.word_level h (by decide : isWord "b" = true) (by decide)).loosen (i := 0)
    (Nat.le_refl _) (Nat.zero_le _)).binary h listsLast_minus hsign
  have hparse : d.parse (.ofString "((a)) - (b - -sin)") = .ok nestedDifference :=
    parse_of_prints h (hleft.binary h listsLast_minus
      ((hright.group h).loosen (Nat.le_refl _) (by omega))) (.inr (by rw [h.limit]; decide))
  obtain ⟨hopenings, -, hreads, -⟩ := format_fewest_parentheses hd (by decide) hparse
  exact ⟨d, hd, hparse, hopenings, hreads⟩

end Formulary.Arith
