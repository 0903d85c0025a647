import Formulary.Arith.Layout
import Formulary.Proofs.Arith.WellFormed

/-!
# The text of a formula

The text of a well-formed tree is scanned as tokens from which the grammar derives the tree.  The
printer decides on parentheses by comparing numbers, the grammar knows levels only; the two are
brought together in `Prints.fit`: a child that is written without parentheses is derived at a level
that fits the place it stands at.

The derivation is found together with its nesting and its number of opening parentheses, which are
functions of the tree (`weight`).

1. Weights.
2. Texts and derivations, one lemma for each rule of the grammar.
3. The text of a tree (`prints_format`).
-/

namespace Formulary.Arith

open Chain (Derives Form Parser)

/-! ## 1. Weights -/

/-- How deep a text nests and how many parentheses it opens. -/
structure Weight where
  nesting : Nat
  openings : Nat
  deriving Repr, DecidableEq

namespace Weight

/-- Nothing at all. -/
def zero : Weight := ⟨0, 0⟩

/-- The weight within parentheses. -/
def enclosed (w : Weight) : Weight := ⟨w.nesting + 1, w.openings + 1⟩

/-- The weight in parentheses if need be. -/
def grouped (w : Weight) (needed : Bool) : Weight := if needed then w.enclosed else w

/-- The weight after a unary operator. -/
def under (w : Weight) : Weight := ⟨w.nesting + 1, w.openings⟩

/-- The weight of two texts side by side. -/
def beside (v w : Weight) : Weight := ⟨max v.nesting w.nesting, v.openings + w.openings⟩

/-- The weight of texts side by side. -/
def all : List (Weight × Int) → Weight
  | [] => zero
  | part :: parts => part.1.beside (all parts)

end Weight

/-- The weight of a node whose children have the given weights and bind as tight as the number
beside each tells. -/
def Op.weigh (op : Op) (parts : List (Weight × Int)) : Weight :=
  match op, parts with
  | .binary _ level, [left, right] =>
    (left.1.grouped (left.2 < level)).beside (right.1.grouped (right.2 ≤ level))
  | .unary _, [operand] => operand.1.under
  | .call _, parts => (Weight.all parts).enclosed
  | _, _ => ⟨1, 0⟩

mutual

/-- The weight of the text of a formula. -/
def weight : Formula → Weight
  | .node op ts => op.weigh (weights ts)

/-- The weights of formulas and how tight they bind. -/
def weights : List Formula → List (Weight × Int)
  | [] => []
  | t :: ts => (weight t, t.value.precedence) :: weights ts

end

/-- The number of opening parentheses. -/
def openings (w : List Token) : Nat := w.countP fun t => t.code == Symbol.leftParen.kind.code

@[simp] theorem openings_append (u w : List Token) : openings (u ++ w) = openings u + openings w :=
  List.countP_append

theorem openings_single {t : Token} {s : Symbol} (h : t.kind = s.kind) :
    openings [t] = if s = .leftParen then 1 else 0 := by
  have hcode : t.code = s.code := by rw [Token.code, h]; rfl
  simp only [openings, List.countP_singleton, hcode]
  cases s <;> rfl

/-! ## 2. Texts and derivations -/

/-- `Prints d form v text ts`: the text, with blanks in front of it and something behind it that can
not go on with it, is scanned as tokens of the given form that are read as `ts` and weigh `v`. -/
def Prints (d : Dialect) (form : Form) (v : Weight) (text : List Char) (ts : List Formula) : Prop :=
  ∀ (blanks : List Char) (r : Reader) (rest : List Char), (∀ c ∈ blanks, Text.isBlank c = true) →
    r.chars = blanks ++ (text ++ rest) → Ends rest →
    ∃ w r', Feed.Scans scan r w r' ∧ r'.chars = rest ∧
      Derives d.parser d.parser.innermost form v.nesting w ts ∧ openings w = v.openings

theorem ends_of_char {c : Char} {cs : List Char} (hident : isIdentChar c = false)
    (hpoint : c ≠ '.') : Ends (c :: cs) := by
  intro d hd
  cases hd
  simp [hident, hpoint]

namespace Prints

variable {p : Profile} {d : Dialect} {form : Form} {v v' : Weight} {text text' : List Char}
  {ts : List Formula} {t t' : Formula}

theorem loosen {i j : Nat} (h : Prints d (.level j) v text [t]) (hj : j ≤ d.parser.levels.length)
    (hij : i ≤ j) : Prints d (.level i) v text [t] := by
  intro blanks r rest hblank hr hend
  obtain ⟨w, r', hscans, hr', hd, hopen⟩ := h blanks r rest hblank hr hend
  exact ⟨w, r', hscans, hr', hd.loosen hj hij, hopen⟩

theorem last (h : Prints d (.level 0) v text [t]) : Prints d .arguments v text [t] := by
  intro blanks r rest hblank hr hend
  obtain ⟨w, r', hscans, hr', hd, hopen⟩ := h blanks r rest hblank hr hend
  exact ⟨w, r', hscans, hr', .last hd, hopen⟩

/-- A sign in front of something that is printed. -/
theorem scans_sign {s : Symbol} {c : Char} {blanks rest : List Char} {r : Reader}
    (hs : Symbol.ofChar? c = some s) (hblank : ∀ c ∈ blanks, Text.isBlank c = true)
    (hr : r.chars = blanks ++ (c :: rest)) :
    ∃ o r', Feed.Scans scan r [o] r' ∧ o.kind = s.kind ∧ o.value = String.ofList [c]
      ∧ r'.chars = rest := by
  refine scans_token (.sign hs) hblank hr fun h => ?_
  obtain ⟨-, -, -, -, hnumber, hident⟩ := sign_char hs
  rcases h with h | h
  · exact absurd h hnumber
  · exact absurd h hident

/-- **A group.** -/
theorem group (h : Compiled p d) (ht : Prints d (.level 0) v text [t]) :
    Prints d (.level d.parser.levels.length) v.enclosed ('(' :: (text ++ [')'])) [t] := by
  intro blanks r rest hblank hr hend
  simp only [List.cons_append, List.append_assoc, List.nil_append] at hr
  obtain ⟨o, r₁, hopening, ho, -, hr₁⟩ := scans_sign (s := .leftParen) rfl hblank hr
  obtain ⟨w, r₂, hscans, hr₂, hd, hopen⟩ := ht [] r₁ (')' :: rest) (by simp) hr₁
    (ends_of_char rfl (by decide))
  obtain ⟨c, r₃, hclosing, hc, -, hr₃⟩ := scans_sign (s := .rightParen) rfl (by simp)
    (show r₂.chars = [] ++ (')' :: rest) from hr₂)
  refine ⟨o :: (w ++ [c]), r₃, hopening.append (hscans.append hclosing), hr₃, .group ?_ ?_ hd, ?_⟩
  · rw [Token.code, ho, h.leftParen]
  · rw [Token.code, hc, h.rightParen]
  · rw [← List.singleton_append, openings_append, openings_append, openings_single ho,
      openings_single hc, hopen]
    simp only [Weight.enclosed, ↓reduceIte, reduceCtorEq]
    omega

/-- A text that is scanned as one operand. -/
theorem scans_atom {s : Symbol} {op : Op} {blanks rest : List Char} {r : Reader} (h : Compiled p d)
    (hs : Scannable s text) (hkind : s = .number ∨ s = .ident)
    (hop : ∀ a, a.kind = s.kind → a.value = String.ofList text → p.convert a .atom = .ok op)
    (hblank : ∀ c ∈ blanks, Text.isBlank c = true) (hr : r.chars = blanks ++ (text ++ rest))
    (hend : Ends rest) :
    ∃ a r', Feed.Scans scan r [a] r' ∧ r'.chars = rest ∧ a.value = String.ofList text ∧
      Derives d.parser d.parser.innermost .operand 1 [a] [.leaf op] ∧ openings [a] = 0 := by
  obtain ⟨a, r', hscans, ha, hvalue, hr'⟩ := scans_token hs hblank hr fun _ => hend
  refine ⟨a, r', hscans, hr', hvalue, .atom ?_ ?_, ?_⟩
  · rw [Token.code, ha, h.identifiers]
    rcases hkind with rfl | rfl <;> decide
  · rw [h.convert]
    exact hop a ha hvalue
  · rw [openings_single ha]
    rcases hkind with rfl | rfl <;> rfl

/-- **A constant or a variable**, as an operand. -/
theorem atom {s : Symbol} {op : Op} (h : Compiled p d) (hs : Scannable s text)
    (hkind : s = .number ∨ s = .ident)
    (hop : ∀ a, a.kind = s.kind → a.value = String.ofList text → p.convert a .atom = .ok op) :
    Prints d .operand ⟨1, 0⟩ text [.leaf op] := by
  intro blanks r rest hblank hr hend
  obtain ⟨a, r', hscans, hr', -, hd, hopen⟩ := scans_atom h hs hkind hop hblank hr hend
  exact ⟨[a], r', hscans, hr', hd, hopen⟩

/-- A constant or a variable whose name is that of no function. -/
theorem atom_level {s : Symbol} {op : Op} (h : Compiled p d) (hs : Scannable s text)
    (hkind : s = .number ∨ s = .ident)
    (hop : ∀ a, a.kind = s.kind → a.value = String.ofList text → p.convert a .atom = .ok op)
    (hfun : String.ofList text ∉ p.functions) :
    Prints d (.level d.parser.levels.length) ⟨1, 0⟩ text [.leaf op] := by
  intro blanks r rest hblank hr hend
  obtain ⟨a, r', hscans, hr', hvalue, hd, hopen⟩ := scans_atom h hs hkind hop hblank hr hend
  refine ⟨[a], r', hscans, hr', .operand hd ?_, hopen⟩
  rintro b hb
  obtain rfl : a = b := by simpa using hb
  rw [h.isFunction, List.contains_eq_mem, decide_eq_false_iff_not, hvalue]
  exact hfun

theorem convert_word {name : String} {a : Token} (ha : a.kind = Symbol.ident.kind)
    (hvalue : a.value = String.ofList name.toList) : p.convert a .atom = .ok (.var name) := by
  have hnumber : (a.code == Symbol.number.kind.code) = false := by rw [Token.code, ha]; rfl
  simp only [Profile.convert, hnumber, Bool.false_eq_true, ↓reduceIte, hvalue, String.ofList_toList]

/-- A variable, as an operand. -/
theorem word {name : String} (h : Compiled p d) (hname : isWord name = true) :
    Prints d .operand ⟨1, 0⟩ name.toList [.leaf (.var name)] :=
  .atom h (.word hname) (.inr rfl) fun _ => convert_word

/-- A variable whose name is that of no function. -/
theorem word_level {name : String} (h : Compiled p d) (hname : isWord name = true)
    (hfun : name ∉ p.functions) :
    Prints d (.level d.parser.levels.length) ⟨1, 0⟩ name.toList [.leaf (.var name)] :=
  .atom_level h (.word hname) (.inr rfl) (fun _ => convert_word) (by rwa [String.ofList_toList])

/-- An operator in front of something that is printed. -/
theorem scans_operator {name : String} {s : Symbol} {blanks rest : List Char} {r : Reader}
    (hs : Symbol.ofOperator? name = some s) (hblank : ∀ c ∈ blanks, Text.isBlank c = true)
    (hr : r.chars = blanks ++ (name.toList ++ rest)) :
    ∃ o r', Feed.Scans scan r [o] r' ∧ r'.chars = rest ∧ o.code = s.code ∧ o.value = name
      ∧ openings [o] = 0 := by
  obtain ⟨c, rfl, hc, hop⟩ := ofOperator?_eq_some.mp hs
  rw [String.toList_ofList] at hr
  obtain ⟨o, r', hscans, ho, hvalue, hr'⟩ := scans_sign hc hblank hr
  refine ⟨o, r', hscans, hr', by rw [Token.code, ho]; rfl, hvalue, ?_⟩
  rw [openings_single ho, if_neg]
  rintro rfl
  cases hop

/-- **A unary operation**, as an operand. -/
theorem unary {name : String} (h : Compiled p d) (hname : name ∈ p.unary)
    (ht : Prints d .operand v text [t]) :
    Prints d .operand v.under (name.toList ++ text) [.node (.unary name) [t]] := by
  intro blanks r rest hblank hr hend
  obtain ⟨code, hcode, s, hs, rfl⟩ := (forall₂_mem h.unaries).1 name hname
  rw [List.append_assoc] at hr
  obtain ⟨o, r₁, hscan, hr₁, ho, hvalue, hopen⟩ := scans_operator hs hblank hr
  obtain ⟨w, r₂, hscans, hr₂, hd, hopen'⟩ := ht [] r₁ rest (by simp) hr₁ hend
  refine ⟨o :: w, r₂, hscan.append hscans, hr₂, .unary (ho ▸ hcode) ?_ hd, ?_⟩
  · rw [h.convert, ← hvalue]
    rfl
  · rw [← List.singleton_append, openings_append, hopen, hopen']
    exact Nat.zero_add _

/-- A unary operation stands wherever an operand can. -/
theorem operand_level {op : Op} {child : Formula}
    (ht : Prints d .operand v text [.node op [child]]) :
    Prints d (.level d.parser.levels.length) v text [.node op [child]] := by
  intro blanks r rest hblank hr hend
  obtain ⟨w, r', hscans, hr', hd, hopen⟩ := ht blanks r rest hblank hr hend
  refine ⟨w, r', hscans, hr', .operand hd fun a ha => ?_, hopen⟩
  subst ha
  cases hd.children_of_single

/-- **A binary operation.** -/
theorem binary {name : String} {i : Nat} (h : Compiled p d) (hlast : p.ListsLast i name)
    (ht : Prints d (.level i) v text [t]) (ht' : Prints d (.level (i + 1)) v' text' [t']) :
    Prints d (.level i) (v.beside v') (text ++ ' ' :: (name.toList ++ ' ' :: text'))
      [.node (.binary name i) [t, t']] := by
  intro blanks r rest hblank hr hend
  obtain ⟨code, s, hs, hcode⟩ := h.codeOf_of_lists hlast.1
  simp only [List.append_assoc, List.cons_append] at hr
  obtain ⟨w, r₁, hscans, hr₁, hd, hopen⟩ := ht blanks r _ hblank hr (ends_of_char rfl (by decide))
  obtain ⟨o, r₂, hscan, hr₂, ho, hvalue, hopen₂⟩ := scans_operator hs (Text.isBlank_single rfl)
    (show r₁.chars = [' '] ++ (name.toList ++ (' ' :: (text' ++ rest))) from hr₁)
  obtain ⟨w', r₃, hscans', hr₃, hd', hopen'⟩ := ht' [' '] r₂ rest
    (Text.isBlank_single rfl) hr₂ hend
  refine ⟨w ++ o :: w', r₃, hscans.append (hscan.append hscans'), hr₃, .binary ?_ ?_ hd hd', ?_⟩
  · rw [ho]
    exact (h.innermost_iff ⟨s, hs, rfl⟩).mpr hlast
  · rw [h.convert, ← hlast.levelOf_eq, ← hvalue]
    rfl
  · rw [openings_append, ← List.singleton_append, openings_append, hopen, hopen₂, hopen',
      Nat.zero_add]
    rfl

/-- An argument before others. -/
theorem more (h : Compiled p d) (ht : Prints d (.level 0) v text [t])
    (hts : Prints d .arguments v' text' ts) :
    Prints d .arguments (v.beside v') (text ++ ',' :: ' ' :: text') (t :: ts) := by
  intro blanks r rest hblank hr hend
  rw [List.append_assoc] at hr
  obtain ⟨w, r₁, hscans, hr₁, hd, hopen⟩ := ht blanks r _ hblank hr (ends_of_char rfl (by decide))
  obtain ⟨o, r₂, hscan, ho, -, hr₂⟩ := scans_sign (s := .comma) rfl (by simp)
    (show r₁.chars = [] ++ (',' :: (' ' :: text' ++ rest)) from hr₁)
  obtain ⟨w', r₃, hscans', hr₃, hd', hopen'⟩ := hts [' '] r₂ rest
    (Text.isBlank_single rfl) hr₂ hend
  refine ⟨w ++ o :: w', r₃, hscans.append (hscan.append hscans'), hr₃, .more ?_ hd hd', ?_⟩
  · rw [Token.code, ho, h.comma]
  · rw [openings_append, ← List.singleton_append, openings_append, openings_single ho, hopen,
      hopen']
    simp only [reduceCtorEq, ↓reduceIte, Weight.beside]
    omega

/-- **A call.** -/
theorem call {name : String} (h : Compiled p d) (hname : name ∈ p.functions)
    (hts : Prints d .arguments v text ts) :
    Prints d (.level d.parser.levels.length) v.enclosed (name.toList ++ '(' :: (text ++ [')']))
      [.node (.call name) ts] := by
  intro blanks r rest hblank hr hend
  simp only [List.cons_append, List.append_assoc, List.nil_append] at hr
  have hword : isWord name = true := isWord_of_function? (h.functions name hname)
  obtain ⟨f, r₁, hscan, hf, hvalue, hr₁⟩ := scans_token (.word hword) hblank hr
    fun _ => ends_of_char rfl (by decide)
  rw [String.ofList_toList] at hvalue
  obtain ⟨o, r₂, hopening, ho, -, hr₂⟩ := scans_sign (s := .leftParen) rfl (by simp)
    (show r₁.chars = [] ++ ('(' :: (text ++ ')' :: rest)) from hr₁)
  obtain ⟨w, r₃, hscans, hr₃, hd, hopen⟩ := hts [] r₂ (')' :: rest) (by simp) hr₂
    (ends_of_char rfl (by decide))
  obtain ⟨c, r₄, hclosing, hc, -, hr₄⟩ := scans_sign (s := .rightParen) rfl (by simp)
    (show r₃.chars = [] ++ (')' :: rest) from hr₃)
  refine ⟨f :: o :: (w ++ [c]), r₄, hscan.append (hopening.append (hscans.append hclosing)), hr₄,
    .call ?_ ?_ ?_ ?_ ?_ hd, ?_⟩
  · rw [Token.code, hf, h.identifiers]
    decide
  · rw [h.isFunction, List.contains_eq_mem, decide_eq_true_eq, hvalue]
    exact hname
  · rw [h.convert, ← hvalue]
    rfl
  · rw [Token.code, ho, h.leftParen]
  · rw [Token.code, hc, h.rightParen]
  · rw [show f :: o :: (w ++ [c]) = [f] ++ ([o] ++ (w ++ [c])) from rfl, openings_append,
      openings_append, openings_append, openings_single hf, openings_single ho,
      openings_single hc, hopen]
    simp only [reduceCtorEq, ↓reduceIte, Weight.enclosed]
    omega

/-- The last level at which the text of a tree is read without parentheses. -/
def bound (d : Dialect) (t : Formula) : Nat :=
  match t.value with
  | .binary _ level => level.toNat
  | _ => d.parser.levels.length

/-- **A child, in parentheses if need be, at the level of its place.**  It needs none when the last
level that reads it is no looser than that level. -/
theorem fit (h : Compiled p d) {i : Nat} (hi : i ≤ d.parser.levels.length)
    (hbound : bound d t ≤ d.parser.levels.length) (ht : Prints d (.level (bound d t)) v text [t])
    {needed : Bool} (hneeded : needed = false → i ≤ bound d t) :
    Prints d (.level i) (v.grouped needed) (if needed then '(' :: (text ++ [')']) else text)
      [t] := by
  cases needed with
  | false => exact ht.loosen hbound (hneeded rfl)
  | true => exact (group h (ht.loosen hbound (Nat.zero_le _))).loosen (Nat.le_refl _) hi

end Prints

/-! ## 3. The text of a tree -/

theorem toList_grouped (text : String) (precedence : Int) (needed : Bool) :
    ((⟨text, precedence⟩ : Piece).grouped needed).toList
      = if needed then '(' :: (text.toList ++ [')']) else text.toList := by
  cases needed with
  | false => rfl
  | true => simp [Piece.grouped]

/-- The text of a child, in parentheses if need be. -/
def groupedText (t : Formula) (needed : Bool) : List Char :=
  if needed then '(' :: ((format t).toList ++ [')']) else (format t).toList

theorem toList_format_unary (name : String) (t : Formula) :
    (format (.node (.unary name) [t])).toList
      = name.toList ++ groupedText t (t.value.precedence < unaryPrecedence) := by
  rw [format, formatList, formatList, Op.compose, String.toList_append]
  simp only [List.getElem?_cons_zero, Option.getD_some, toList_grouped]
  rfl

theorem toList_format_binary (name : String) (level : Int) (left right : Formula) :
    (format (.node (.binary name level) [left, right])).toList
      = groupedText left (left.value.precedence < level)
        ++ ' ' :: (name.toList ++ ' ' :: groupedText right (right.value.precedence ≤ level)) := by
  rw [format, formatList, formatList, formatList, Op.compose]
  simp [toList_grouped, groupedText]

theorem toList_format_call (name : String) (args : List Formula) :
    (format (.node (.call name) args)).toList
      = name.toList
        ++ '(' :: ((", ".intercalate ((formatList args).map (·.text))).toList ++ [')']) := by
  rw [format, Op.compose]
  simp

/-- A numeral is no word, so it is the name of no function. -/
theorem numeral_not_function {p : Profile} {d : Dialect} (h : Compiled p d) (n : Number.Numeral) :
    String.ofList n.text ∉ p.functions := by
  intro hmem
  have hword := isWord_of_function? (h.functions _ hmem)
  obtain ⟨c, cs, hlist, hc, -⟩ := isWord_iff.mp hword
  obtain ⟨c', cs', htext, hdigit⟩ := n.exists_head
  rw [String.toList_ofList, htext] at hlist
  obtain ⟨rfl, -⟩ := List.cons.inj hlist
  have := isDigit_false_of_isLetter hc
  rw [show isDigit c' = true from hdigit] at this
  cases this

variable {p : Profile} {d : Dialect}

/-- The last level that reads a well-formed tree is one of the chain, or the one behind it. -/
theorem WellFormed.bound_le (h : Compiled p d) {below : Bool} {t : Formula}
    (ht : WellFormed p below t) : Prints.bound d t ≤ d.parser.levels.length := by
  cases ht with
  | binary hlast _ _ =>
    obtain ⟨ops, hops, -⟩ := hlast.1
    have := (List.getElem?_eq_some_iff.mp hops).1
    rw [← h.length_levels] at this
    exact Nat.le_of_lt this
  | const _ => exact Nat.le_refl _
  | var _ _ => exact Nat.le_refl _
  | unary _ _ => exact Nat.le_refl _
  | call _ _ _ => exact Nat.le_refl _

/-- A tree that binds at least as tight as a level is read at that level. -/
theorem WellFormed.le_bound {below : Bool} {t : Formula} (ht : WellFormed p below t) {i : Nat}
    (hi : i ≤ d.parser.levels.length) (hprec : (i : Int) ≤ t.value.precedence) :
    i ≤ Prints.bound d t := by
  cases ht with
  | binary _ _ _ => exact Int.ofNat_le.mp hprec
  | const _ => exact hi
  | var _ _ => exact hi
  | unary _ _ => exact hi
  | call _ _ _ => exact hi

/-- What stands under a unary operator binds tight enough to need no parentheses. -/
theorem WellFormed.unaryPrecedence_le {t : Formula} (ht : WellFormed p true t) :
    unaryPrecedence ≤ t.value.precedence := by
  cases ht with
  | const _ => exact Int.sub_le_self _ (by decide)
  | var _ _ => exact Int.sub_le_self _ (by decide)
  | unary _ _ => exact Int.le_refl _

/-- The texts of arguments, with commas between them. -/
theorem prints_arguments (h : Compiled p d) {ts : List Formula} (hne : ts ≠ [])
    (hts : ∀ t ∈ ts, Prints d (.level 0) (weight t) (format t).toList [t]) :
    Prints d .arguments (Weight.all (weights ts))
      (", ".intercalate ((formatList ts).map (·.text))).toList ts := by
  induction ts with
  | nil => exact absurd rfl hne
  | cons t ts ih =>
    have hfirst := hts t (by simp)
    cases ts with
    | nil =>
      have hweight : Weight.all (weights [t]) = weight t := by
        simp [weights, Weight.all, Weight.beside, Weight.zero]
      rw [hweight]
      simpa [formatList] using hfirst.last
    | cons u us =>
      have hrest := ih (by simp) fun u hu => hts u (by simp [hu])
      have htext : (", ".intercalate ((formatList (t :: u :: us)).map (·.text))).toList
          = (format t).toList
            ++ ',' :: ' ' :: (", ".intercalate ((formatList (u :: us)).map (·.text))).toList := by
        simp [formatList, String.intercalate_cons_cons]
      rw [htext]
      exact hfirst.more h hrest

/-- **The text of a well-formed tree derives the tree**: as an operand where it stands under a unary
operator, and else at the last level that reads it. -/
theorem prints_format (h : Compiled p d) {below : Bool} {t : Formula} (ht : WellFormed p below t) :
    (below = true → Prints d .operand (weight t) (format t).toList [t]) ∧
      (below = false → Prints d (.level (Prints.bound d t)) (weight t) (format t).toList [t]) := by
  induction ht with
  | @const below v hv =>
    obtain ⟨n, hwrite, hread⟩ := Number.exists_numeral_write hv
    have hop : ∀ a, a.kind = Symbol.number.kind → a.value = String.ofList n.text →
        p.convert a .atom = .ok (.const v) := by
      intro a ha hvalue
      have hnumber : (a.code == Symbol.number.kind.code) = true := by rw [Token.code, ha]; rfl
      simp only [Profile.convert, hnumber, ↓reduceIte, hvalue, hread]
      rfl
    have htext : (format (.leaf (.const v))).toList = n.text := by
      rw [show format (.leaf (.const v)) = Number.write v from rfl, hwrite, String.toList_ofList]
    rw [htext]
    exact ⟨fun _ => .atom h (.numeral n) (.inl rfl) hop,
      fun _ => .atom_level h (.numeral n) (.inl rfl) hop (numeral_not_function h n)⟩
  | var hword hfun =>
    exact ⟨fun _ => .word h hword, fun hbelow => .word_level h hword (hfun hbelow)⟩
  | @unary below name operand hname hoperand ih =>
    have hnone : decide (operand.value.precedence < unaryPrecedence) = false := by
      rw [decide_eq_false_iff_not, Int.not_lt]
      exact hoperand.unaryPrecedence_le
    have hprints := Prints.unary h hname (ih.1 rfl)
    rw [toList_format_unary, hnone]
    exact ⟨fun _ => hprints, fun _ => hprints.operand_level⟩
  | @binary name level left right hlast hleft hright ihl ihr =>
    refine ⟨fun hbelow => absurd hbelow (by decide), fun _ => ?_⟩
    have hlevel : level < d.parser.levels.length := by
      obtain ⟨ops, hops, -⟩ := hlast.1
      rw [h.length_levels]
      exact (List.getElem?_eq_some_iff.mp hops).1
    rw [toList_format_binary]
    refine .binary h hlast ?_ ?_
    · refine .fit h (Nat.le_of_lt hlevel) (hleft.bound_le h) (ihl.2 rfl) fun hneeded => ?_
      rw [decide_eq_false_iff_not, Int.not_lt] at hneeded
      exact hleft.le_bound (Nat.le_of_lt hlevel) hneeded
    · refine .fit h hlevel (hright.bound_le h) (ihr.2 rfl) fun hneeded => ?_
      rw [decide_eq_false_iff_not, Int.not_le] at hneeded
      exact hright.le_bound hlevel hneeded
  | @call name args hname hne hargs ih =>
    refine ⟨fun hbelow => absurd hbelow (by decide), fun _ => ?_⟩
    rw [toList_format_call]
    refine .call h hname (prints_arguments h hne fun t ht => ?_)
    exact ((ih t ht).2 rfl).loosen ((hargs t ht).bound_le h) (Nat.zero_le _)

end Formulary.Arith
