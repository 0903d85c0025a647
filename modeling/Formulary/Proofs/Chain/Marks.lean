import Formulary.Proofs.Chain.Language
import Formulary.Proofs.Tree.Walks

/-!
# Which level has joined a node

A tree does not tell how it was read.  Here the chain is run with marks: each value comes with the
index of the level whose loop took its token, and the trees that the stage of groups has read are
marked as well.  Without the marks it is the chain as it stands (`Parser.parseAll_projects`).

The marks are faithful (`Parser.parseAll_faithful`).  A loop takes an operator only at the innermost
level that lists it, because the loops of the levels behind it see the token first.  And what a
level reads is joined by that level or one behind it, unless a group encloses it; so a level finds
to its left what it has joined itself, and to its right only what the levels behind it have joined.

1. Marks.
2. The chain with marks.
3. The chain without them.
4. Stages and what lies before them.
5. Faithful marks.
-/

namespace Formulary.Chain

open Feed (Closes upcoming)

variable {ε α β γ β' γ' : Type}

/-! ## 1. Marks -/

/-- How a node was read. -/
structure Mark where
  /-- The index of the level whose loop took its token; no loop takes that of an operand. -/
  stage : Option Nat
  /-- Whether the node was read as a group. -/
  enclosed : Bool
  deriving Repr, DecidableEq

/-- The tree without its marks. -/
def plain (t : Tree (α × Mark)) : Tree α := t.map Prod.fst

/-- Marks a tree as one that stands in a group. -/
def enclose : Tree (α × Mark) → Tree (α × Mark)
  | .node (v, m) ts => .node (v, { m with enclosed := true }) ts

@[simp] theorem plain_node (v : α × Mark) (ts : List (Tree (α × Mark))) :
    plain (.node v ts) = .node v.1 (ts.map plain) := by
  rw [plain, Tree.map, Tree.mapList_eq]
  rfl

@[simp] theorem plain_enclose (t : Tree (α × Mark)) : plain (enclose t) = plain t := by
  obtain ⟨⟨v, m⟩, ts⟩ := t
  rw [enclose, plain_node, plain_node]

/-! ## 2. The chain with marks -/

namespace Parser

variable (p : Parser ε α)

/-- The parser whose values come with the stage that has taken their tokens. -/
def marking (stage : Option Nat) : Parser ε (α × Mark) :=
  { p with convert := fun t role => (p.convert t role).map fun v => (v, ⟨stage, false⟩) }

/-- An operand of the last level; a group is marked. -/
def markedTerminal (inner : Stage ε (Tree (α × Mark))) (room depth : Nat) :
    Stage ε (Tree (α × Mark)) := do
  let t ← peek .terminal
  if p.identifiers.contains t.code && p.isFunction t.value then (p.marking none).call inner depth
  else if t.code == p.leftParen.code then
    let t ← (p.marking none).group inner depth
    return enclose t
  else (p.marking none).unary room depth

/-- The levels from `index` on; the loop of each marks what it takes with its own index. -/
def markedLevel (operand : Stage ε (Tree (α × Mark))) (depth : Nat) :
    (index : Nat) → (levels : List (List Int)) → Stage ε (Tree (α × Mark))
  | _, [] => operand
  | index, ops :: others =>
    within (.level index) depth do
      let next := markedLevel operand depth (index + 1) others
      let left ← next
      let rounds ← pending
      (p.marking (some index)).climb (.level index) ops next (rounds + 1) left

def markedExpression : (room depth : Nat) → Stage ε (Tree (α × Mark))
  | 0, _ => p.tooDeep .expression
  | room + 1, depth =>
    p.markedLevel (p.markedTerminal (markedExpression room (depth + 1)) room (depth + 1))
      (depth + 1) 0 p.levels

def markedParse : Stage ε (Tree (α × Mark)) := do
  let w ← get
  p.markedExpression (p.room w.cursor) 0

/-- A parse of the whole input that marks what it reads. -/
def markedParseAll : Stage ε (Tree (α × Mark)) := p.markedParse >>= seeEnd

end Parser

/-! ## 3. The chain without marks -/

/-- The stage `y` does what `x` does, and what it gives is made of what `x` gives. -/
def Projects (f : β → γ) (x : Stage ε β) (y : Stage ε γ) : Prop :=
  ∀ k, exec y k = ((exec x k).1.map f, (exec x k).2)

namespace Projects

variable {f : β → γ} {x : Stage ε β} {y : Stage ε γ}

theorem refl (x : Stage ε β) : Projects id x x := by
  intro k
  rcases exec x k with ⟨r, k'⟩
  cases r <;> rfl

theorem pure (f : β → γ) (b : β) : Projects f (pure b : Stage ε β) (pure (f b)) := fun _ => rfl

theorem failIn (f : β → γ) (rule : Rule) (e : ParseError ε) :
    Projects f (failIn rule e) (failIn rule e) := fun _ => rfl

/-- **What is projected step by step is projected as a whole.** -/
theorem bind {f' : β' → γ'} {g : β → Stage ε β'} {h : γ → Stage ε γ'} (hx : Projects f x y)
    (hg : ∀ b, Projects f' (g b) (h (f b))) : Projects f' (x >>= g) (y >>= h) := by
  intro k
  rw [exec_bind, exec_bind, hx k]
  rcases exec x k with ⟨r, k'⟩
  cases r with
  | error e => rfl
  | ok b => exact hg b k'

theorem ite {x' : Stage ε β} {y' : Stage ε γ} (c : Prop) [Decidable c] (h : Projects f x y)
    (h' : Projects f x' y') : Projects f (if c then x else x') (if c then y else y') := by
  split
  · exact h
  · exact h'

theorem within (rule : Rule) (depth : Nat) (h : Projects f x y) :
    Projects f (within rule depth x) (Chain.within rule depth y) := by
  intro k
  rw [exec_within, exec_within, h]

/-- What a run gives is projected, and nothing else changes. -/
theorem runOn (h : Projects f x y) (c : Cursor) :
    runOn c y = { Chain.runOn c x with result := (Chain.runOn c x).result.map f } := by
  unfold Chain.runOn
  rw [show y.run ⟨c, [], []⟩ = _ from h ⟨c, [], []⟩]
  rfl

end Projects

namespace Parser

variable {p : Parser ε α} {stage : Option Nat}

theorem valueOf_projects (rule : Rule) (t : Token) (role : Role) :
    Projects Prod.fst ((p.marking stage).valueOf rule t role) (p.valueOf rule t role) := by
  intro k
  have hconvert : (p.marking stage).convert t role
      = (p.convert t role).map fun v => (v, ⟨stage, false⟩) := rfl
  rw [exec_valueOf, exec_valueOf, hconvert]
  cases p.convert t role <;> rfl

theorem tooDeep_projects (f : β → γ) (rule : Rule) :
    Projects f (p.tooDeep rule) (p.tooDeep rule) := by
  unfold tooDeep
  exact .ite _ (.failIn f rule _) (.bind (.refl _) fun pos => .failIn f rule _)

theorem atom_projects : Projects plain (p.marking stage).atom p.atom := by
  unfold atom
  refine .bind (.refl _) fun t => .ite _ ?_ (.failIn plain _ _)
  exact .bind (.refl _) fun _ => .bind (valueOf_projects _ t _) fun v => .pure plain (.leaf v)

theorem unary_projects (room depth : Nat) :
    Projects plain ((p.marking stage).unary room depth) (p.unary room depth) := by
  induction room generalizing depth with
  | zero =>
    unfold unary
    exact .bind (.refl _) fun t => .ite _ (.within _ _ (tooDeep_projects plain _)) atom_projects
  | succ room ih =>
    unfold unary
    refine .bind (.refl _) fun t => .ite _ (.within _ _ ?_) atom_projects
    refine .bind (.refl _) fun _ => .bind (valueOf_projects _ t _) fun v => ?_
    exact .bind (ih (depth + 1)) fun operand => .pure plain (.node v [operand])

section

variable {x : Stage ε (Tree (α × Mark))} {y : Stage ε (Tree α)}

theorem arguments_projects (h : Projects plain x y) (rounds : Nat) :
    Projects (List.map plain) ((p.marking stage).arguments x rounds) (p.arguments y rounds) := by
  induction rounds with
  | zero => exact .failIn _ _ _
  | succ rounds ih =>
    rw [arguments, arguments]
    refine .bind h fun first => .bind (.refl _) fun t => .ite _ ?_ (.pure _ [first])
    exact .bind (.refl _) fun _ => .bind ih fun others => .pure _ (first :: others)

theorem call_projects (h : Projects plain x y) (depth : Nat) :
    Projects plain ((p.marking stage).call x depth) (p.call y depth) := by
  unfold call
  refine .within _ _ (.bind (.refl _) fun t => .bind (.refl _) fun _ => ?_)
  refine .bind (valueOf_projects _ t _) fun v => .bind (.refl _) fun _ => ?_
  refine .bind (.refl _) fun rounds => .bind (arguments_projects h _) fun args => ?_
  refine .bind (.refl _) fun _ => ?_
  rw [← plain_node v args]
  exact .pure plain (.node v args)

theorem group_projects (h : Projects plain x y) (depth : Nat) :
    Projects plain ((p.marking stage).group x depth) (p.group y depth) :=
  .within _ _ (.bind (.refl _) fun _ => .bind h fun t => .bind (.refl _) fun _ => .pure plain t)

/-- The mark on a group is gone with all others. -/
theorem enclose_projects (h : Projects plain x y) :
    Projects plain (do let t ← x; return enclose t) y := by
  intro k
  rw [h k, exec_bind]
  rcases exec x k with ⟨r, k'⟩
  cases r with
  | error e => rfl
  | ok t => simp [exec_pure, Except.map]

theorem terminal_projects (h : Projects plain x y) (room depth : Nat) :
    Projects plain (p.markedTerminal x room depth) (p.terminal y room depth) := by
  unfold markedTerminal terminal
  refine .bind (.refl _) fun t => .ite _ (call_projects h depth) (.ite _ ?_ ?_)
  · exact enclose_projects (group_projects h depth)
  · exact unary_projects room depth

theorem climb_projects (h : Projects plain x y) {rule : Rule} {ops : List Int} (rounds : Nat)
    (left : Tree (α × Mark)) :
    Projects plain ((p.marking stage).climb rule ops x rounds left)
      (p.climb rule ops y rounds (plain left)) := by
  induction rounds generalizing left with
  | zero => exact .failIn plain _ _
  | succ rounds ih =>
    rw [climb, climb]
    refine .bind (.refl _) fun t => .ite _ ?_ (.pure plain left)
    refine .bind (.refl _) fun _ => .bind (valueOf_projects _ t _) fun v => ?_
    exact .bind h fun right => ih (.node v [left, right])

theorem level_projects (h : Projects plain x y) (depth index : Nat) (levels : List (List Int)) :
    Projects plain (p.markedLevel x depth index levels) (p.level y depth index levels) := by
  induction levels generalizing index with
  | nil => exact h
  | cons ops others ih =>
    rw [markedLevel, level]
    refine .within _ _ (.bind (ih (index + 1)) fun left => .bind (.refl _) fun rounds => ?_)
    exact climb_projects (ih (index + 1)) (rounds + 1) left

end

theorem expression_projects (room depth : Nat) :
    Projects plain (p.markedExpression room depth) (p.expression room depth) := by
  induction room generalizing depth with
  | zero => exact tooDeep_projects plain _
  | succ room ih => exact level_projects (terminal_projects (ih (depth + 1)) _ _) _ 0 p.levels

theorem seeEnd_projects (f : β → γ) (b : β) :
    Projects f (seeEnd b : Stage ε β) (seeEnd (f b)) := by
  intro k
  rw [exec_seeEnd, exec_seeEnd]
  rcases k.cursor.look 1 with ⟨r, c⟩
  cases r with
  | error e => rfl
  | ok t => cases ht : t.isEOF <;> simp [ht, Except.map]

/-- **A parse does what the parse with marks does**, and gives its tree without the marks. -/
theorem parseAll_projects (p : Parser ε α) : Projects plain p.markedParseAll p.parseAll := by
  rw [parseAll_eq, markedParseAll]
  refine .bind (.bind (.refl _) fun w => expression_projects _ 0) fun tree => ?_
  exact seeEnd_projects plain tree

end Parser

/-! ## 4. Stages and what lies before them -/

/-- `P` holds of the tokens that lie ahead, and the answer behind them ends the input. -/
structure Before (P : Token → Prop) (k : Work ε) : Prop where
  closes : Closes k.ahead.2
  tokens : ∀ t ∈ k.ahead.1, P t

/-- The answer to a look at the next token. -/
def Work.next (k : Work ε) : Step := upcoming k.ahead.1 k.ahead.2

/-- `Ensures P a stage Q`: what the stage yields where the next answer is `a`, it yields before
another answer `a'` and as a value `b` such that `Q a' b` holds. -/
def Ensures (P : Token → Prop) (a : Step) (stage : Stage ε β) (Q : Step → β → Prop) : Prop :=
  ∀ k k' b, Before P k → k.next = a → Yields stage k b k' → Before P k' ∧ Q k'.next b

namespace Ensures

variable {P : Token → Prop} {a : Step} {rule : Rule} {Q : Step → β → Prop} {R : Step → γ → Prop}
  {p : Parser ε α} {t : Token}

theorem pure {b : β} (h : Q a b) : Ensures P a (pure b : Stage ε β) Q := by
  intro k k' b' hk ha hy
  obtain ⟨rfl, rfl⟩ := yields_pure.mp hy
  exact ⟨hk, ha ▸ h⟩

theorem imp {stage : Stage ε β} {Q' : Step → β → Prop} (h : Ensures P a stage Q)
    (hQ : ∀ a' b, Q a' b → Q' a' b) : Ensures P a stage Q' := by
  intro k k' b hk ha hy
  obtain ⟨hk', hb⟩ := h k k' b hk ha hy
  exact ⟨hk', hQ _ _ hb⟩

theorem failIn (e : ParseError ε) : Ensures P a (failIn rule e : Stage ε β) Q :=
  fun _ _ _ _ _ hy => absurd hy not_yields_failIn

theorem tooDeep : Ensures P a (p.tooDeep rule : Stage ε β) Q :=
  fun _ _ _ _ _ hy => absurd hy Parser.not_yields_tooDeep

theorem bind {x : Stage ε β} {f : β → Stage ε γ} (hx : Ensures P a x Q)
    (hf : ∀ b a', Q a' b → Ensures P a' (f b) R) : Ensures P a (x >>= f) R := by
  intro k k' c hk ha hy
  obtain ⟨b, k₁, h₁, hy⟩ := yields_bind.mp hy
  obtain ⟨hk₁, hb⟩ := hx k k₁ b hk ha h₁
  exact hf b _ hb k₁ k' c hk₁ rfl hy

theorem within {depth : Nat} {body : Stage ε β} (h : Ensures P a body Q) :
    Ensures P a (within rule depth body) Q := by
  intro k k' b hk ha hy
  obtain ⟨k₁, hb, rfl⟩ := yields_within.mp hy
  have hk' : Before P { k with events := .enter rule depth :: k.events } :=
    ⟨hk.closes, hk.tokens⟩
  obtain ⟨hk₁, hQ⟩ := h _ k₁ b hk' ha hb
  exact ⟨⟨hk₁.closes, hk₁.tokens⟩, hQ⟩

/-- A look changes nothing that lies ahead. -/
theorem peek {f : Token → Stage ε β} (hf : ∀ t, a = .ok t → Ensures P a (f t) Q) :
    Ensures P a (peek rule >>= f) Q := by
  intro k k' b hk ha hy
  obtain ⟨t, k₁, h₁, hy⟩ := yields_bind.mp hy
  obtain ⟨ht, hahead⟩ := h₁.peek rfl hk.closes
  have hk₁ : k₁.ahead = k.ahead := hahead
  refine hf t (ha.symm.trans ht) k₁ k' b ⟨hk₁ ▸ hk.closes, hk₁ ▸ hk.tokens⟩ ?_ hy
  rw [Work.next, hk₁]
  exact ha

/-- The token that is passed is one of those that lay ahead, unless it is the end. -/
theorem skip {f : Unit → Stage ε β} (ht : 0 ≤ t.code)
    (hf : P t → ∀ a', Ensures P a' (f ()) Q) : Ensures P (.ok t) (skip rule >>= f) Q := by
  intro k k' b hk ha hy
  obtain ⟨_, k₁, h₁, hy⟩ := yields_bind.mp hy
  obtain ⟨rest, hrest⟩ := exists_cons_of_upcoming ha hk.closes ht
  have hahead := h₁.skip (s := k) (w := rest) (Prod.ext hrest rfl) hk.closes
  refine hf (hk.tokens t (by simp [hrest])) _ k₁ k' b ⟨?_, ?_⟩ rfl hy
  · rw [hahead]
    exact hk.closes
  · rw [hahead]
    exact fun u hu => hk.tokens u (by simp [hrest, hu])

theorem require {kind : Kind} {f : Unit → Stage ε β} (hkind : 0 ≤ kind.code)
    (hf : ∀ a', Ensures P a' (f ()) Q) : Ensures P a (require rule kind >>= f) Q := by
  intro k k' b hk _ hy
  obtain ⟨_, k₁, h₁, hy⟩ := yields_bind.mp hy
  have hahead : k.ahead = (k.ahead.1, k.ahead.2) := rfl
  obtain ⟨u, rest, hrest, -, hahead⟩ := h₁.require hahead hk.closes hkind
  refine hf _ k₁ k' b ⟨?_, ?_⟩ rfl hy
  · rw [hahead]
    exact hk.closes
  · rw [hahead]
    exact fun v hv => hk.tokens v (by simp [hrest, hv])

theorem valueOf {role : Role} {f : α → Stage ε β}
    (hf : ∀ v, p.convert t role = .ok v → Ensures P a (f v) Q) :
    Ensures P a (p.valueOf rule t role >>= f) Q := by
  intro k k' b hk ha hy
  obtain ⟨v, k₁, h₁, hy⟩ := yields_bind.mp hy
  obtain ⟨hv, rfl⟩ := yields_valueOf.mp h₁
  have hk₁ : Before P { k with converted := (t, role) :: k.converted } := ⟨hk.closes, hk.tokens⟩
  exact hf v hv _ k' b hk₁ ha hy

theorem pending {f : Nat → Stage ε β} (hf : ∀ n, Ensures P a (f n) Q) :
    Ensures P a (Chain.pending >>= f) Q := by
  intro k k' b hk ha hy
  obtain ⟨n, k₁, h₁, hy⟩ := yields_bind.mp hy
  obtain ⟨-, rfl⟩ := yields_pending.mp h₁
  exact hf n k k' b hk ha hy

end Ensures

/-! ## 5. Faithful marks -/

/-- The tree was joined by the level `i` or one behind it, or it stands in a group. -/
def Tight (i : Nat) (t : Tree (α × Mark)) : Prop :=
  t.value.2.enclosed = true ∨ ∀ j, t.value.2.stage = some j → i ≤ j

theorem Tight.loosen {i j : Nat} {t : Tree (α × Mark)} (h : Tight j t) (hij : i ≤ j) : Tight i t :=
  h.imp_right fun h stage hstage => Nat.le_trans hij (h stage hstage)

theorem tight_enclose (i : Nat) (t : Tree (α × Mark)) : Tight i (enclose t) := by
  obtain ⟨v, ts⟩ := t
  exact .inl rfl

/-- The marks of a tree tell where its tokens, of which `P` holds, were taken: an operator at the
innermost level that lists it, between trees that are tight enough for it. -/
inductive Faithful (p : Parser ε α) (P : Token → Prop) : Tree (α × Mark) → Prop
  | joined {i : Nat} {o : Token} {v : α} {enclosed : Bool} {left right : Tree (α × Mark)} :
      P o → p.innermost i o.code → p.convert o .binaryOperator = .ok v →
      Faithful p P left → Faithful p P right → Tight i left → Tight (i + 1) right →
      Faithful p P (.node (v, ⟨some i, enclosed⟩) [left, right])
  | operand {t : Token} {role : Role} {v : α} {enclosed : Bool} {ts : List (Tree (α × Mark))} :
      role ≠ .binaryOperator → p.convert t role = .ok v → (∀ t ∈ ts, Faithful p P t) →
      Faithful p P (.node (v, ⟨none, enclosed⟩) ts)

variable {p : Parser ε α} {P : Token → Prop}

theorem Faithful.enclose {t : Tree (α × Mark)} (h : Faithful p P t) : Faithful p P (enclose t) := by
  cases h with
  | joined ho hop hv hleft hright hl hr => exact .joined ho hop hv hleft hright hl hr
  | operand hrole hv hts => exact .operand hrole hv hts

namespace Parser

/-- The stage of an operand: what it yields is as tight as it can be. -/
def FindsOperand (p : Parser ε α) (P : Token → Prop) (_ : Step) (t : Tree (α × Mark)) : Prop :=
  Faithful p P t ∧ ∀ i, Tight i t

/-- What is converted with a mark is converted without it. -/
theorem convert_marking {stage : Option Nat} {t : Token} {role : Role} {v : α × Mark}
    (h : (p.marking stage).convert t role = .ok v) :
    ∃ w, p.convert t role = .ok w ∧ v = (w, ⟨stage, false⟩) := by
  dsimp only [marking] at h
  cases hw : p.convert t role with
  | error e => rw [hw] at h; cases h
  | ok w =>
    rw [hw] at h
    exact ⟨w, rfl, (Except.ok.inj h).symm⟩

/-- A value that no loop has taken makes an operand. -/
theorem findsOperand_node {a : Step} {t : Token} {role : Role} {v : α × Mark}
    {ts : List (Tree (α × Mark))} (hrole : role ≠ .binaryOperator)
    (hv : (p.marking none).convert t role = .ok v) (hts : ∀ t ∈ ts, Faithful p P t) :
    p.FindsOperand P a (.node v ts) := by
  obtain ⟨w, hw, rfl⟩ := convert_marking hv
  exact ⟨.operand hrole hw hts, fun i => .inr fun j hj => nomatch hj⟩

theorem atom_ensures (hp : p.Unsigned) (a : Step) :
    Ensures P a (p.marking none).atom (p.FindsOperand P) := by
  unfold atom
  refine .peek fun t ht => ?_
  subst ht
  split
  · next hid =>
    have hid : t.code ∈ p.identifiers := by simpa [marking] using hid
    refine .skip (hp.identifiers _ hid) fun _ a' => .valueOf fun v hv => .pure ?_
    exact findsOperand_node (by decide) hv (by simp)
  · exact .failIn _

theorem unary_ensures (hp : p.Unsigned) (a : Step) (room depth : Nat) :
    Ensures P a ((p.marking none).unary room depth) (p.FindsOperand P) := by
  induction room generalizing a depth with
  | zero =>
    unfold unary
    refine .peek fun t ht => ?_
    split
    · exact .within .tooDeep
    · exact atom_ensures hp a
  | succ room ih =>
    unfold unary
    refine .peek fun t ht => ?_
    subst ht
    split
    · next hun =>
      have hun : t.code ∈ p.unaries := by simpa [marking] using hun
      refine .within (.skip (hp.unaries _ hun) fun _ a' => .valueOf fun v hv => ?_)
      refine .bind (ih a' (depth + 1)) fun operand a'' hoperand => .pure ?_
      exact findsOperand_node (by decide) hv (by simpa using hoperand.1)
    · exact atom_ensures hp _

section

variable {inner : Stage ε (Tree (α × Mark))}

theorem arguments_ensures (hp : p.Unsigned)
    (hinner : ∀ a, Ensures P a inner fun _ t => Faithful p P t) (a : Step) (rounds : Nat) :
    Ensures P a ((p.marking none).arguments inner rounds) fun _ ts => ∀ t ∈ ts, Faithful p P t := by
  induction rounds generalizing a with
  | zero => exact .failIn _
  | succ rounds ih =>
    rw [arguments]
    refine .bind (hinner a) fun first a₁ hfirst => .peek fun t ht => ?_
    subst ht
    split
    · next hcomma =>
      have hcomma : t.code = p.comma.code := by simpa [marking] using hcomma
      refine .skip (hcomma ▸ hp.comma) fun _ a₂ => .bind (ih a₂) fun others a₃ hothers => .pure ?_
      exact List.forall_mem_cons.mpr ⟨hfirst, hothers⟩
    · exact .pure (by simpa using hfirst)

theorem terminal_ensures (hp : p.Unsigned)
    (hinner : ∀ a, Ensures P a inner fun _ t => Faithful p P t) (a : Step) (room depth : Nat) :
    Ensures P a (p.markedTerminal inner room depth) (p.FindsOperand P) := by
  unfold markedTerminal
  refine .peek fun t ht => ?_
  subst ht
  split
  · next hcall =>
    simp only [Bool.and_eq_true, List.contains_iff_mem] at hcall
    refine .within (.peek fun f hf => ?_)
    obtain rfl := Except.ok.inj hf
    refine .skip (hp.identifiers _ hcall.1) fun _ a₁ => .valueOf fun v hv => ?_
    refine .require hp.leftParen fun a₂ => .pending fun rounds => ?_
    refine .bind (arguments_ensures hp hinner a₂ _) fun args a₃ hargs => ?_
    exact .require hp.rightParen fun a₄ => .pure (findsOperand_node (by decide) hv hargs)
  · split
    · next hparen =>
      have hparen : t.code = p.leftParen.code := by simpa using hparen
      have hgroup : Ensures P (.ok t) ((p.marking none).group inner depth)
          fun _ t => Faithful p P t :=
        .within (.skip (hparen ▸ hp.leftParen) fun _ a₁ => .bind (hinner a₁) fun t a₂ ht =>
          .require hp.rightParen fun a₃ => .pure ht)
      exact .bind hgroup fun t a' ht => .pure ⟨ht.enclose, fun i => tight_enclose i t⟩
    · exact unary_ensures hp _ room depth

end

/-- What the level `i` yields: it is tight, and no operator of it or of the levels behind it
follows. -/
def FindsLevel (p : Parser ε α) (P : Token → Prop) (i : Nat) (a : Step) (t : Tree (α × Mark)) :
    Prop :=
  (Faithful p P t ∧ Tight i t) ∧ p.StopsAt i a

/-- **The loop of a level takes an operator at its innermost level only**: the operators of the
levels behind it do not follow, by induction on the rounds. -/
theorem climb_ensures (hp : p.Unsigned) {i : Nat} {ops : List Int} (hops : p.levels[i]? = some ops)
    {rule : Rule} {next : Stage ε (Tree (α × Mark))}
    (hnext : ∀ a, Ensures P a next (p.FindsLevel P (i + 1))) (rounds : Nat) {a : Step}
    {left : Tree (α × Mark)} (hleft : Faithful p P left ∧ Tight i left)
    (hstop : p.StopsAt (i + 1) a) :
    Ensures P a ((p.marking (some i)).climb rule ops next rounds left) (p.FindsLevel P i) := by
  induction rounds generalizing a left with
  | zero => exact .failIn _
  | succ rounds ih =>
    rw [climb]
    refine .peek fun o ho => ?_
    subst ho
    split
    · next hmem =>
      have hop : p.operator i o.code := ⟨ops, hops, by simpa using hmem⟩
      have hinner : p.innermost i o.code := ⟨hop, fun j hj => hstop o rfl j hj⟩
      refine .skip (hp.operator hop) fun ho a₁ => .valueOf fun v hv => ?_
      obtain ⟨w, hw, rfl⟩ := convert_marking hv
      refine .bind (hnext a₁) fun right a₂ hright => ih ⟨?_, ?_⟩ hright.2
      · exact .joined ho hinner hw hleft.1 hright.1.1 hleft.2 hright.1.2
      · exact .inr fun j hj => Nat.le_of_eq (Option.some.inj hj)
    · next hmem =>
      refine .pure ⟨hleft, fun t ht j hj hop => ?_⟩
      obtain rfl := Except.ok.inj ht
      rcases Nat.lt_or_eq_of_le hj with hlt | rfl
      · exact hstop o rfl j hlt hop
      · obtain ⟨ops', hops', hin⟩ := hop
        obtain rfl := Option.some.inj (hops.symm.trans hops')
        exact hmem (by simpa using hin)

/-- **A level yields what it or a level behind it has joined.** -/
theorem level_ensures (hp : p.Unsigned) {operand : Stage ε (Tree (α × Mark))} {depth : Nat}
    (hoperand : ∀ a, Ensures P a operand (p.FindsOperand P)) :
    ∀ (levels : List (List Int)) (i : Nat), i ≤ p.levels.length → p.levels.drop i = levels →
      ∀ a, Ensures P a (p.markedLevel operand depth i levels) (p.FindsLevel P i) := by
  intro levels
  induction levels with
  | nil =>
    intro i hi hdrop a
    have hlen : i = p.levels.length := Nat.le_antisymm hi (List.drop_eq_nil_iff.mp hdrop)
    refine (hoperand a).imp fun a' t ht => ⟨⟨ht.1, ht.2 i⟩, ?_⟩
    intro t' _ j hj hop
    have := hop.lt
    omega
  | cons ops others ih =>
    intro i hi hdrop a
    obtain ⟨hlt, hops, hrest⟩ := exists_of_drop_eq_cons hdrop
    rw [markedLevel]
    refine .within (.bind (ih (i + 1) hlt hrest a) fun left a₁ hleft => .pending fun rounds => ?_)
    exact climb_ensures hp hops (ih (i + 1) hlt hrest) (rounds + 1)
      ⟨hleft.1.1, hleft.1.2.loosen (Nat.le_succ i)⟩ hleft.2

theorem expression_ensures (hp : p.Unsigned) (room depth : Nat) (a : Step) :
    Ensures P a (p.markedExpression room depth) fun _ t => Faithful p P t := by
  induction room generalizing depth a with
  | zero => exact .tooDeep
  | succ room ih =>
    rw [markedExpression]
    have hterminal := fun a => terminal_ensures hp (ih (depth + 1)) a room (depth + 1)
    exact (level_ensures hp hterminal p.levels 0 (Nat.zero_le _) rfl a).imp fun _ _ h => h.1.1

/-- Seeing the end of the input gives what was there before. -/
theorem eq_of_yields_seeEnd {k k' : Work ε} {b b' : β} (hy : Yields (seeEnd b) k b' k') :
    b = b' := by
  unfold Yields at hy
  rw [exec_seeEnd] at hy
  split at hy
  · cases hy
  · split at hy
    · exact Except.ok.inj (Prod.mk.inj hy).1
    · cases hy

/-- **The marks that a parse makes are faithful.** -/
theorem parseAll_faithful (hp : p.Unsigned) {c : Cursor} (hc : Closes c.ahead.2)
    (hP : ∀ t ∈ c.ahead.1, P t) {t : Tree (α × Mark)}
    (ht : (runOn c p.markedParseAll).result = .ok t) : Faithful p P t := by
  obtain ⟨k', hy⟩ := result_runOn.mp ht
  rw [markedParseAll] at hy
  obtain ⟨tree, k, hparse, hend⟩ := yields_bind.mp hy
  obtain rfl := eq_of_yields_seeEnd hend
  have hexpression : Yields (p.markedExpression (p.room c) 0) ⟨c, [], []⟩ tree k := hparse
  have hbefore : Before P (⟨c, [], []⟩ : Work ε) := ⟨hc, hP⟩
  exact (expression_ensures hp _ 0 _ _ k tree hbefore rfl hexpression).2

end Parser

end Formulary.Chain
