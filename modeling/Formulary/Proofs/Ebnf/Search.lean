import Formulary.Ebnf.Checker
import Formulary.Proofs.Ebnf.Package
import Formulary.Proofs.Scanning
import Mathlib.Data.List.Nodup
import Mathlib.Data.List.Perm.Subperm

/-!
# The search for unused productions

The search of the checker looks at one production after the other and notes what it refers to.  It
stops when no noted production is left to look at, which is so after as many rounds as there are
productions, and has met exactly the productions in use (`run_waiting`, `Visited.reached_iff`).  So
the problems found are what is wrong with the references of productions in use, and the other
productions (`mem_verify`); and productions are verified if and only if all references lead
somewhere, no lexical production refers to one that is not, and all productions are in use
(`checker_verifies`).  Problems of different kinds are told in different texts (`checker_blames`).

The state of the search is described by the productions it has looked at (`Visited`): they and the
waiting ones are the productions met, and whatever they refer to has been met.

1. Following references.
2. A run of the search.
3. What is found.
4. The texts of problems.
-/

namespace Formulary.Ebnf

open Reader (Stops stops_cons)

variable {all looked new : List Production} {lexical : Bool} {s s' s'' : Search} {p q : Production}
  {ref : String × Position} {refs refs' : List (String × Position)} {start name : String}

/-! ## 1. Following references -/

theorem find?_eq_some_name (h : all.find? (·.name == name) = some p) : p ∈ all ∧ p.name = name :=
  ⟨List.mem_of_find?_eq_some h, by have := List.find?_some h; simpa using this⟩

/-- The production that a reference leads to is met. -/
def Search.meet (all : List Production) (s : Search) (name : String) : Search :=
  match all.find? (·.name == name) with
  | some p => s.push p
  | none => s

/-- What is wrong with a reference. -/
def faults (all : List Production) (lexical : Bool) (ref : String × Position) : List Problem :=
  (if all.any (·.name == ref.1) then [] else [⟨ref.2, s!"missing production {ref.1}"⟩]) ++
    if lexical && !isLexical ref.1 then
      [⟨ref.2, s!"reference to non-lexical production {ref.1}"⟩]
    else []

theorem faults_eq_nil : faults all lexical ref = [] ↔ InOrder all lexical ref := by
  simp only [faults, InOrder, List.append_eq_nil_iff]
  constructor
  · rintro ⟨hmissing, hlexical⟩
    constructor
    · split at hmissing
      next h => simpa using h
      next => cases hmissing
    · intro h
      split at hlexical
      next => cases hlexical
      next h' => simpa [h] using h'
  · rintro ⟨hdefined, hlexical⟩
    constructor
    · rw [if_pos (by simpa using hdefined)]
    · rw [if_neg (by simpa using hlexical)]

/-- What is wrong with the references of a production. -/
def Production.faults (all : List Production) (p : Production) : List Problem :=
  p.references.flatMap (Ebnf.faults all (isLexical p.name))

theorem push_of_met (h : p.name ∈ s.reached) : s.push p = s := by
  simp [Search.push, h]

theorem push_of_new (h : p.name ∉ s.reached) :
    s.push p = { s with waiting := p :: s.waiting, reached := p.name :: s.reached } := by
  simp [Search.push, h]

/-- Following a reference is meeting the production and noting what is wrong with the reference. -/
theorem follow_eq (all : List Production) (lexical : Bool) (s : Search) (ref : String × Position) :
    s.follow all lexical ref
      = { s.meet all ref.1 with problems := s.problems ++ faults all lexical ref } := by
  have hpush : ∀ p, (s.push p).problems = s.problems := by
    intro p
    unfold Search.push
    split <;> rfl
  obtain ⟨name, pos⟩ := ref
  cases hfind : all.find? (·.name == name) with
  | none =>
    have hany : all.any (·.name == name) = false := by simpa using hfind
    simp only [Search.follow, Search.meet, faults, hfind, hany]
    split <;> simp
  | some p =>
    have hany : all.any (·.name == name) = true := by
      obtain ⟨hp, hname⟩ := find?_eq_some_name hfind
      exact List.any_eq_true.mpr ⟨p, hp, beq_iff_eq.mpr hname⟩
    simp only [Search.follow, Search.meet, faults, hfind, hany]
    split <;> simp [← hpush p]

/-- What following references does to a search: it meets the productions `new`, those that the
references lead to and that were not met before, and notes what is wrong with the references. -/
structure Followed (all : List Production) (lexical : Bool) (refs : List (String × Position))
    (s s' : Search) (new : List Production) : Prop where
  waiting : s'.waiting = new ++ s.waiting
  reached : s'.reached = new.map (·.name) ++ s.reached
  distinct : s.reached.Nodup → s'.reached.Nodup
  defined : ∀ p ∈ new, p ∈ all
  referred : ∀ p ∈ new, ∃ ref ∈ refs, ref.1 = p.name
  met : ∀ ref ∈ refs, (∃ p ∈ all, p.name = ref.1) → ref.1 ∈ s'.reached
  problems : s'.problems = s.problems ++ refs.flatMap (faults all lexical)

/-- **One reference** leads to one production at most. -/
theorem followed_follow (all : List Production) (lexical : Bool) (s : Search)
    (ref : String × Position) :
    ∃ new, Followed all lexical [ref] s (s.follow all lexical ref) new := by
  rw [follow_eq]
  have hproblems : s.problems ++ faults all lexical ref
      = s.problems ++ [ref].flatMap (faults all lexical) := by
    simp
  cases hfind : all.find? (·.name == ref.1) with
  | none =>
    have hmeet : s.meet all ref.1 = s := by rw [Search.meet, hfind]
    rw [hmeet]
    refine ⟨[], rfl, rfl, id, by simp, by simp, ?_, hproblems⟩
    intro r hr ⟨p, hp, hname⟩
    rw [List.mem_singleton.mp hr] at hname
    exact absurd hname (by simpa using List.find?_eq_none.mp hfind p hp)
  | some p =>
    obtain ⟨hp, hname⟩ := find?_eq_some_name hfind
    have hmeet : s.meet all ref.1 = s.push p := by rw [Search.meet, hfind]
    rw [hmeet]
    by_cases hmet : p.name ∈ s.reached
    · rw [push_of_met hmet]
      exact ⟨[], rfl, rfl, id, by simp, by simp, fun r hr _ => by
        rwa [List.mem_singleton.mp hr, ← hname], hproblems⟩
    · rw [push_of_new hmet]
      exact ⟨[p], rfl, rfl, fun h => List.nodup_cons.mpr ⟨hmet, h⟩, by simpa using hp,
        by simp [hname], fun r hr _ => by simp [List.mem_singleton.mp hr, hname], hproblems⟩

theorem Followed.append (h : Followed all lexical refs s s' new) {new' : List Production}
    (h' : Followed all lexical refs' s' s'' new') :
    Followed all lexical (refs ++ refs') s s'' (new' ++ new) where
  waiting := by rw [h'.waiting, h.waiting, List.append_assoc]
  reached := by rw [h'.reached, h.reached, List.map_append, List.append_assoc]
  distinct hnodup := h'.distinct (h.distinct hnodup)
  defined p hp := (List.mem_append.mp hp).elim (h'.defined p) (h.defined p)
  referred p hp := by
    rcases List.mem_append.mp hp with hp | hp
    · obtain ⟨ref, href, hname⟩ := h'.referred p hp
      exact ⟨ref, List.mem_append_right _ href, hname⟩
    · obtain ⟨ref, href, hname⟩ := h.referred p hp
      exact ⟨ref, List.mem_append_left _ href, hname⟩
  met ref href hdefined := by
    rcases List.mem_append.mp href with href | href
    · rw [h'.reached]
      exact List.mem_append_right _ (h.met ref href hdefined)
    · exact h'.met ref href hdefined
  problems := by rw [h'.problems, h.problems, List.append_assoc, List.flatMap_append]

/-- **References are followed one after the other.** -/
theorem followed_foldl (all : List Production) (lexical : Bool) (refs : List (String × Position))
    (s : Search) :
    ∃ new, Followed all lexical refs s (refs.foldl (·.follow all lexical ·) s) new := by
  induction refs generalizing s with
  | nil => exact ⟨[], rfl, rfl, id, by simp, by simp, by simp, by simp⟩
  | cons ref refs ih =>
    obtain ⟨new, hfirst⟩ := followed_follow all lexical s ref
    obtain ⟨new', hothers⟩ := ih (s.follow all lexical ref)
    exact ⟨new' ++ new, hfirst.append hothers⟩

/-! ## 2. A run of the search -/

/-- A search that has looked at the productions `looked`: these and the waiting ones are the
productions met, all in use; what a production refers to that was looked at has been met; and what
is wrong with its references has been noted. -/
structure Visited (all : List Production) (start : String) (looked : List Production)
    (s : Search) : Prop where
  reached : s.reached.Perm ((s.waiting ++ looked).map (·.name))
  distinct : s.reached.Nodup
  defined : ∀ p ∈ s.waiting ++ looked, p ∈ all
  startMet : start ∈ s.reached
  inUse : ∀ name ∈ s.reached, InUse all start name
  met : ∀ p ∈ looked, ∀ ref ∈ p.references, (∃ q ∈ all, q.name = ref.1) → ref.1 ∈ s.reached
  problems : s.problems = looked.reverse.flatMap (Production.faults all)

/-- **Looking at a waiting production.** -/
theorem Visited.step {waiting : List Production} (h : Visited all start looked s)
    (hwaiting : s.waiting = p :: waiting) :
    Visited all start (p :: looked)
      (p.references.foldl (·.follow all (isLexical p.name) ·) { s with waiting }) := by
  obtain ⟨new, hnew⟩ := followed_foldl all (isLexical p.name) p.references { s with waiting }
  have hp : p ∈ all := h.defined p (by simp [hwaiting])
  have hreached : p.name ∈ s.reached := h.reached.mem_iff.mpr (by simp [hwaiting])
  constructor
  · rw [hnew.reached, hnew.waiting]
    have hperm := h.reached
    rw [hwaiting] at hperm
    simp only [List.map_append, List.append_assoc, List.map_cons, List.cons_append] at hperm ⊢
    exact (hperm.trans List.perm_middle.symm).append_left _
  · exact hnew.distinct h.distinct
  · rw [hnew.waiting]
    intro q hq
    have hcases : q ∈ new ∨ q ∈ s.waiting ++ looked := by
      rw [hwaiting]
      simp only [List.mem_append, List.mem_cons] at hq ⊢
      tauto
    exact hcases.elim (hnew.defined q) (h.defined q)
  · rw [hnew.reached]
    exact List.mem_append_right _ h.startMet
  · rw [hnew.reached]
    intro name hname
    rcases List.mem_append.mp hname with hname | hname
    · obtain ⟨q, hq, rfl⟩ := List.mem_map.mp hname
      obtain ⟨ref, href, hq'⟩ := hnew.referred q hq
      rw [← hq']
      exact .reference (h.inUse _ hreached) hp href
    · exact h.inUse name hname
  · intro q hq ref href hdefined
    rcases List.mem_cons.mp hq with rfl | hq
    · exact hnew.met ref href hdefined
    · rw [hnew.reached]
      exact List.mem_append_right _ (h.met q hq ref href hdefined)
  · rw [hnew.problems, h.problems, List.reverse_cons, List.flatMap_append, List.flatMap_singleton]
    rfl

theorem run_of_waiting_nil (rounds : Nat) (h : s.waiting = []) : Search.run all rounds s = s := by
  cases rounds with
  | zero => rfl
  | succ rounds => rw [Search.run, h]

/-- **A run looks at one production a round**, until none is waiting. -/
theorem visited_run (rounds : Nat) (h : Visited all start looked s) :
    ∃ looked', Visited all start looked' (Search.run all rounds s) ∧
      ((Search.run all rounds s).waiting = [] ∨ looked'.length = looked.length + rounds) := by
  induction rounds generalizing looked s with
  | zero => exact ⟨looked, h, .inr rfl⟩
  | succ rounds ih =>
    cases hwaiting : s.waiting with
    | nil =>
      rw [run_of_waiting_nil _ hwaiting]
      exact ⟨looked, h, .inl hwaiting⟩
    | cons p waiting =>
      obtain ⟨looked', hvisited, hend⟩ := ih (h.step hwaiting)
      rw [Search.run, hwaiting]
      refine ⟨looked', hvisited, hend.imp_right fun hlength => ?_⟩
      rw [hlength, List.length_cons]
      omega

/-- No more productions are looked at than there are. -/
theorem Visited.length_le (h : Visited all start looked s) :
    s.waiting.length + looked.length ≤ all.length := by
  have hnodup : ((s.waiting ++ looked).map (·.name)).Nodup := h.reached.nodup_iff.mp h.distinct
  have hsub : (s.waiting ++ looked).Subperm all :=
    List.subperm_of_subset (List.Nodup.of_map _ hnodup) fun p hp => h.defined p hp
  simpa using hsub.length_le

/-- The search is over after as many rounds as there are productions. -/
theorem run_waiting (h : Visited all start [] s) : ∃ looked,
    Visited all start looked (Search.run all all.length s) ∧
      (Search.run all all.length s).waiting = [] := by
  obtain ⟨looked, hvisited, hend⟩ := visited_run all.length h
  refine ⟨looked, hvisited, hend.elim id fun hlength => ?_⟩
  have hle := hvisited.length_le
  simp only [List.length_nil, Nat.zero_add] at hlength
  exact List.length_eq_zero_iff.mp (by omega)

/-- **A search that is over has met exactly the productions in use.** -/
theorem Visited.reached_iff (h : Visited all start looked s) (hend : s.waiting = [])
    (hdistinct : (all.map (·.name)).Nodup) (hp : p ∈ all) :
    p.name ∈ s.reached ↔ InUse all start p.name := by
  refine ⟨h.inUse _, fun huse => ?_⟩
  have hmet : ∀ name, InUse all start name → (∃ q ∈ all, q.name = name) → name ∈ s.reached := by
    intro name huse
    induction huse with
    | start => exact fun _ => h.startMet
    | @reference q ref _ hq href ih =>
      -- nothing is waiting, so what has been met has been looked at
      have hreached := h.reached.mem_iff.mp (ih ⟨q, hq, rfl⟩)
      rw [hend, List.nil_append] at hreached
      obtain ⟨q', hlooked, hname⟩ := List.mem_map.mp hreached
      obtain rfl : q' = q :=
        List.inj_on_of_nodup_map hdistinct (h.defined q' (by simp [hlooked])) hq hname
      exact h.met q' hlooked ref href
  exact hmet p.name huse ⟨p, hp, rfl⟩

/-! ## 3. Problems -/

/-- **The problems of productions** are what is wrong with the references of those in use, and
those that are not. -/
theorem mem_verify (hdistinct : (all.map (·.name)).Nodup) (hp : p ∈ all) {problem : Problem} :
    problem ∈ verify all p.name ↔
      (∃ q ∈ all, InUse all p.name q.name ∧ problem ∈ q.faults all) ∨
      ∃ q ∈ all, ¬ InUse all p.name q.name ∧ problem = ⟨q.pos, s!"{q.name} is unreachable"⟩ := by
  unfold verify
  split
  next hfind => exact absurd (by simp) (List.find?_eq_none.mp hfind p hp)
  next p' hfind =>
    obtain ⟨hp', hname⟩ := find?_eq_some_name hfind
    obtain rfl := List.inj_on_of_nodup_map hdistinct hp' hp hname
    have hfirst : Visited all p'.name [] ((Search.mk [] [] []).push p') := by
      rw [push_of_new (by simp)]
      constructor <;> simp [hp, InUse.start]
    obtain ⟨looked, hvisited, hend⟩ := run_waiting hfirst
    generalize Search.run all all.length ((Search.mk [] [] []).push p') = s at hvisited hend
    have huse : ∀ q ∈ all, q.name ∈ s.reached ↔ InUse all p'.name q.name := fun q hq =>
      hvisited.reached_iff hend hdistinct hq
    have hlooked : ∀ q, q ∈ looked ↔ q ∈ all ∧ InUse all p'.name q.name := fun q => by
      constructor
      · intro hq
        have hall := hvisited.defined q (by simp [hq])
        refine ⟨hall, (huse q hall).mp (hvisited.reached.mem_iff.mpr ?_)⟩
        exact List.mem_map_of_mem (by simp [hq])
      · rintro ⟨hq, hinuse⟩
        have hreached := hvisited.reached.mem_iff.mp ((huse q hq).mpr hinuse)
        rw [hend, List.nil_append] at hreached
        obtain ⟨q', hq', hname'⟩ := List.mem_map.mp hreached
        rwa [← List.inj_on_of_nodup_map hdistinct (hvisited.defined q' (by simp [hq'])) hq hname']
    simp only [List.mem_append, hvisited.problems, List.mem_flatMap, List.mem_reverse, hlooked,
      and_assoc, List.mem_map, List.mem_filter, Bool.not_eq_true', List.contains_eq_mem,
      decide_eq_false_iff_not]
    refine or_congr_right (exists_congr fun q => and_congr_right fun hq => ?_)
    rw [huse q hq, eq_comm]

/-- **The checker finds nothing if and only if** the start is one of the productions, all of them
are in use, and all references are in order. -/
theorem checker_verifies : checker.Verifies := by
  intro all start hdistinct
  show verify all start = [] ↔ _
  by_cases hstart : ∃ p ∈ all, p.name = start
  · obtain ⟨p, hp, rfl⟩ := hstart
    have horder : ∀ q : Production,
        q.faults all = [] ↔ ∀ ref ∈ q.references, InOrder all (isLexical q.name) ref := fun q => by
      simp only [Production.faults, List.flatMap_eq_nil_iff, faults_eq_nil]
    simp only [List.eq_nil_iff_forall_not_mem, mem_verify hdistinct hp, ← horder]
    constructor
    · intro h
      have huse : ∀ q ∈ all, InUse all p.name q.name := fun q hq =>
        not_not.mp fun hunused => h _ (.inr ⟨q, hq, hunused, rfl⟩)
      exact ⟨⟨p, hp, rfl⟩, huse, fun q hq problem hproblem =>
        h problem (.inl ⟨q, hq, huse q hq, hproblem⟩)⟩
    · rintro ⟨-, huse, hnone⟩ problem (⟨q, hq, -, hproblem⟩ | ⟨q, hq, hunused, -⟩)
      · exact hnone q hq problem hproblem
      · exact hunused (huse q hq)
  · have hfind : all.find? (·.name == start) = none := by simpa using hstart
    simp [verify, hfind, hstart]

/-! ## 4. Texts -/

theorem toList_outOfOrder (name : String) : (outOfOrder name).toList
    = "reference".toList ++ (" to non-lexical production ".toList ++ name.toList) := by
  have hwords : "reference to non-lexical production ".toList
      = "reference".toList ++ " to non-lexical production ".toList := by decide +kernel
  have hlist : (outOfOrder name).toList
      = "reference to non-lexical production ".toList ++ name.toList := String.toList_append
  exact hlist.trans ((congrArg (· ++ name.toList) hwords).trans (List.append_assoc _ _ _))

theorem outOfOrder_inj {other : String} : outOfOrder name = outOfOrder other ↔ name = other :=
  String.append_right_inj _

theorem missing_ne (other : String) : s!"missing production {other}" ≠ outOfOrder name := by
  intro heq
  have hlist := (String.toList_append.symm.trans (congrArg String.toList heq)).trans
    (toList_outOfOrder name)
  cases (List.cons.inj hlist).1

theorem continuesName_of_isName (h : isName name = true) :
    ∀ c ∈ name.toList, continuesName c = true := by
  obtain ⟨c, cs, hlist, hc, hcs⟩ := isName_iff.mp h
  rw [hlist]
  exact List.forall_mem_cons.mpr ⟨by simp [continuesName, hc], hcs⟩

/-- That a production is not in use is told in another way: there are no blanks in its name. -/
theorem unreachable_ne (h : isName p.name = true) :
    s!"{p.name} is unreachable" ≠ outOfOrder name := by
  intro heq
  have hlist := (String.toList_append.symm.trans (congrArg String.toList heq)).trans
    (toList_outOfOrder name)
  have hreference : isName "reference" = true := by decide +kernel
  have hblank : continuesName ' ' = false := by decide +kernel
  obtain ⟨-, hrest⟩ := Stops.append_inj hlist (continuesName_of_isName h)
    (continuesName_of_isName hreference) (stops_cons hblank _) (stops_cons hblank _)
  cases (List.cons.inj (List.cons.inj hrest).2).1

/-- **A reference is told to be out of order** if it leads from a lexical production to one that is
not. -/
theorem exists_outOfOrder : (∃ problem ∈ faults all lexical ref, problem.text = outOfOrder name) ↔
    lexical = true ∧ ref.1 = name ∧ isLexical name = false := by
  constructor
  · rintro ⟨problem, hmem, htext⟩
    rcases List.mem_append.mp hmem with hmem | hmem
    · split at hmem
      · cases hmem
      · rw [List.mem_singleton.mp hmem] at htext
        exact absurd htext (missing_ne ref.1)
    · split at hmem
      next horder =>
        rw [List.mem_singleton.mp hmem] at htext
        obtain ⟨hlexical, href⟩ := (Bool.and_eq_true _ _).mp horder
        obtain rfl := outOfOrder_inj.mp htext
        exact ⟨hlexical, rfl, by simpa using href⟩
      next => cases hmem
  · rintro ⟨rfl, rfl, href⟩
    refine ⟨⟨ref.2, outOfOrder ref.1⟩, List.mem_append_right _ ?_, rfl⟩
    rw [href]
    exact List.mem_singleton_self _

/-- **The checker tells references out of the lexical productions.** -/
theorem checker_blames : checker.Blames := by
  rintro all _ hdistinct hnames ⟨start, hstart, rfl⟩ name
  show (∃ problem ∈ verify all start.name, problem.text = outOfOrder name) ↔ _
  simp only [mem_verify hdistinct hstart]
  constructor
  · rintro ⟨problem, ⟨p, hp, huse, hfault⟩ | ⟨p, hp, -, rfl⟩, htext⟩
    · obtain ⟨ref, href, hfault⟩ := List.mem_flatMap.mp hfault
      obtain ⟨hlexical, hname⟩ := exists_outOfOrder.mp ⟨problem, hfault, htext⟩
      exact ⟨p, hp, huse, hlexical, ref, href, hname⟩
    · exact absurd htext (unreachable_ne (hnames p hp))
  · rintro ⟨p, hp, huse, hlexical, ref, href, hname⟩
    obtain ⟨problem, hfault, htext⟩ : ∃ problem ∈ faults all (isLexical p.name) ref,
        problem.text = outOfOrder name := exists_outOfOrder.mpr ⟨hlexical, hname⟩
    exact ⟨problem, .inl ⟨p, hp, huse, List.mem_flatMap.mpr ⟨ref, href, hfault⟩⟩, htext⟩

end Formulary.Ebnf
