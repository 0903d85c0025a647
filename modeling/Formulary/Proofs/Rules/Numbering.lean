import Formulary.Proofs.Rules.Naming

/-!
# The search for the name of a production

A rule takes the bare name or, number by number, the first numbered one that no rule before it has
taken.  The numbers have no end, but the search has: it gets no further than there are rules before
(`productionNames_settles`).  So every rule has a name in the table, and no two rules have one name
(`Grammar.productions_settled`).

1. Numbered names.
2. The names of a list of rules.
3. The names of a grammar.
-/

namespace Formulary.Rules

variable {taken names : List String} {base : String} {g : Grammar}

/-! ## 1. Numbered names -/

/-- The names that are tried for a production, without end. -/
def numbered (base : String) : Nat → String
  | 0 => base
  | k + 1 => base ++ toString (k + 1)

/-- The search settles on the name of number `k`: it is the first that is not taken. -/
structure Settles (taken : List String) (base : String) (k : Nat) : Prop where
  fresh : numbered base k ∉ taken
  tried : ∀ j < k, numbered base j ∈ taken

theorem candidates_eq_map (taken : List String) (base : String) :
    candidates taken base = (List.range (taken.length + 1)).map (numbered base) := by
  rw [List.range_succ_eq_map, List.map_cons, List.map_map]
  rfl

/-- **The search ends** after at most as many numbers as there are names taken. -/
theorem freshName_settles (taken : List String) (base : String) :
    ∃ k ≤ taken.length, Settles taken base k ∧ freshName taken base = numbered base k := by
  obtain ⟨name, hname, hnew⟩ := exists_candidate taken base
  rw [freshName]
  rw [candidates_eq_map] at hname ⊢
  rw [List.find?_map]
  cases hfind : (List.range (taken.length + 1)).find?
      ((fun name => !taken.contains name) ∘ numbered base) with
  | none =>
    obtain ⟨k, hk, rfl⟩ := List.mem_map.mp hname
    have htaken := List.find?_eq_none.mp hfind k hk
    simp [hnew] at htaken
  | some k =>
    obtain ⟨hfresh, hk, htried⟩ := List.find?_range_eq_some.mp hfind
    refine ⟨k, Nat.le_of_lt_succ (List.mem_range.mp hk), ⟨by simpa using hfresh, ?_⟩, rfl⟩
    exact fun j hj => by simpa using htried j hj

/-! ## 2. A list of rules -/

/-- **Each rule settles on a name** with no more numbers tried than there are names before its own:
those that were taken and those of the earlier rules. -/
theorem productionNames_settles (taken names : List String) {i : Nat} (hi : i < names.length)
    (hi' : i < (productionNames taken names).length) :
    ∃ k ≤ taken.length + i,
      Settles (taken ++ (productionNames taken names).take i) (Text.pascal names[i]) k ∧
        (productionNames taken names)[i] = numbered (Text.pascal names[i]) k := by
  induction names generalizing taken i with
  | nil => nomatch hi
  | cons name names ih =>
    cases i with
    | zero =>
      obtain ⟨k, hk, hsettles, hname⟩ := freshName_settles taken (Text.pascal name)
      exact ⟨k, hk, by simpa using hsettles, hname⟩
    | succ i =>
      -- The name of the first rule is taken when the others get theirs.
      let fresh := freshName taken (Text.pascal name)
      obtain ⟨k, hk, hsettles, hname⟩ :=
        ih (taken ++ [fresh]) (Nat.lt_of_succ_lt_succ hi) (Nat.lt_of_succ_lt_succ hi')
      rw [List.length_append, List.length_singleton] at hk
      rw [List.append_assoc, List.singleton_append] at hsettles
      exact ⟨k, by omega, hsettles, hname⟩

/-! ## 3. A grammar -/

namespace Grammar

theorem take_map_productionOf (h : g.names.Nodup) (i : Nat) :
    (g.names.take i).map g.productionOf = (productionNames [] g.names).take i := by
  rw [List.map_take, map_productionOf h]

/-- **Every rule is found with a name of its own**, the first of its numbered names that no rule
before it has; its number is at most that of the rules before it. -/
theorem productions_settled (h : g.names.Nodup) :
    (∀ i (hi : i < g.names.length), ∃ k ≤ i,
      Settles ((g.names.take i).map g.productionOf) (Text.pascal g.names[i]) k ∧
        g.productions.find? g.names[i] = some (numbered (Text.pascal g.names[i]) k)) ∧
      ∀ m ∈ g.names, ∀ n ∈ g.names, g.productions.find? m = g.productions.find? n → m = n := by
  constructor
  · intro i hi
    have hi' : i < (productionNames [] g.names).length := by rwa [length_productionNames]
    obtain ⟨k, hk, hsettles, hname⟩ := productionNames_settles [] g.names hi hi'
    rw [List.length_nil, Nat.zero_add] at hk
    rw [List.nil_append, ← take_map_productionOf h] at hsettles
    exact ⟨k, hk, hsettles, by rw [find?_productions h hi hi', hname]⟩
  · intro m hm n hn heq
    rw [find?_eq_productionOf h hm, find?_eq_productionOf h hn] at heq
    exact productionOf_inj h hm hn (Option.some.inj heq)

/-- Rules whose names look alike in Pascal case, like numbered ones or like nothing at all. -/
def lookalikes : Grammar :=
  ⟨["a-b", "aB", "a_b1", "AB", "AB-1", "_", "-"].map fun name => ⟨name, []⟩⟩

theorem productions_settled_lookalikes :
    lookalikes.names.map lookalikes.productionOf = ["AB", "AB1", "AB11", "AB2", "AB12", "", "1"] ∧
      lookalikes.names.Nodup ∧
      ∀ m ∈ lookalikes.names, ∀ n ∈ lookalikes.names,
        lookalikes.productions.find? m = lookalikes.productions.find? n → m = n :=
  have hdistinct : lookalikes.names.Nodup := by decide
  ⟨by decide +kernel, hdistinct, (productions_settled hdistinct).2⟩

end Grammar

end Formulary.Rules
