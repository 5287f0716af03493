import ReversePolish.Operator.Host
import ReversePolish.Proofs.Evaluation.Reached
/-!
# More operators

A table of operators is only ever added to, and a name stands for the operator that was registered
first under it. So a name that is taken keeps its meaning, whatever is registered later, and the
only words that can change theirs are names that were free.

A run asks its table about nothing but the words that it comes to, brackets apart. Two tables that
answer alike for these words lead to the same run (`runTokens_congr`). So registering operators
makes no difference to a text that has none of their names as a word, and registering an operator
under a name that is taken makes no difference at all (`evaluate_registerAll`).
-/

namespace ReversePolish

/-! ## Tables -/

namespace OperatorTable

/-- The table after operators have been registered one after the other. -/
def registerAll (table : OperatorTable) (ops : List Operator) : OperatorTable :=
  ops.foldl register table

/-- A name that means nothing so far, and that one of the operators would give a meaning to. -/
structure IsNew (table : OperatorTable) (ops : List Operator) (name : String) : Prop where
  free : name ∉ table.names
  taken : name ∈ ops.map Operator.name

/-- Two tables that have the same operator for a token, if they are asked about it at all. -/
def Agrees (table other : OperatorTable) (t : Token) : Prop :=
  t.kind = .word → t.text ≠ "[" → t.text ≠ "]" → table.find? t.text = other.find? t.text

variable {table : OperatorTable} {ops : List Operator} {name : String}

theorem operators_registerAll (table : OperatorTable) (ops : List Operator) :
    (table.registerAll ops).operators = table.operators ++ ops := by
  induction ops generalizing table with
  | nil => exact (List.append_nil _).symm
  | cons op ops ih =>
    have hmore : (table.register op).operators = table.operators ++ [op] := rfl
    rw [registerAll, List.foldl_cons, ← registerAll, ih, hmore, List.append_assoc,
      List.singleton_append]

theorem exists_of_mem_names (h : name ∈ table.names) : ∃ op, table.find? name = some op := by
  obtain ⟨op, hop, hname⟩ := List.mem_map.1 h
  refine Option.isSome_iff_exists.1 (List.find?_isSome.2 ⟨op, hop, ?_⟩)
  simpa using hname

theorem find?_registerAll (table : OperatorTable) (ops : List Operator) (name : String) :
    (table.registerAll ops).find? name
      = (table.find? name).or (ops.find? fun op => op.name == name) := by
  rw [find?, operators_registerAll, List.find?_append]
  rfl

/-- **What a name stands for** is changed for none but new names. -/
theorem find?_registerAll_of_not_new (h : ¬table.IsNew ops name) :
    (table.registerAll ops).find? name = table.find? name := by
  rw [find?_registerAll]
  by_cases hname : name ∈ table.names
  · obtain ⟨op, hop⟩ := exists_of_mem_names hname
    rw [hop, Option.some_or]
  · have hother : (ops.find? fun op => op.name == name) = none := by
      rw [List.find?_eq_none]
      intro op hop hsame
      exact h ⟨hname, List.mem_map.2 ⟨op, hop, by simpa using hsame⟩⟩
    rw [hother, Option.or_none]

end OperatorTable

/-! ## Runs -/

section

variable {table other : OperatorTable} {mustExist : Bool} {t : Token} {tokens : List Token}
  {s : Machine}

theorem executeWord_congr {word : String}
    (h : word ≠ "[" → word ≠ "]" → table.find? word = other.find? word) :
    executeWord table word = executeWord other word := by
  unfold executeWord
  by_cases hopen : word = "["
  · rw [if_pos hopen, if_pos hopen]
  · rw [if_neg hopen, if_neg hopen]
    by_cases hclose : word = "]"
    · rw [if_pos hclose, if_pos hclose]
    · rw [if_neg hclose, if_neg hclose, h hopen hclose]

/-- A token does the same with two tables that agree on it. -/
theorem execute_congr (h : table.Agrees other t) :
    execute table mustExist t = execute other mustExist t := by
  unfold execute
  split
  · rfl
  · rfl
  · rfl
  · rfl
  · next hkind => exact executeWord_congr (h hkind)

/-- **A run asks about the words that it comes to** and about no others. -/
theorem runTokens_congr
    (h : ∀ t reached, Reaches table mustExist tokens s t reached → table.Agrees other t) :
    runTokens table mustExist tokens s = runTokens other mustExist tokens s := by
  induction tokens generalizing s with
  | nil => rfl
  | cons t tokens ih =>
    have hstep : execute table mustExist t = execute other mustExist t :=
      execute_congr (h t s (.here t tokens s))
    simp only [runTokens, ← hstep]
    cases hrun : (execute table mustExist t).run s with
    | error failure final => rfl
    | ok _ s' =>
      have hrest := ih fun u reached hreaches => h u reached (.later hrun hreaches)
      simp only [hrest]

theorem runText_congr {text : String} {capacity : Nat}
    (h : ∀ t reached, TextReaches table capacity mustExist text s t reached →
      table.Agrees other t) :
    runText table capacity mustExist text s = runText other capacity mustExist text s := by
  by_cases hfits : text.utf8ByteSize ≤ capacity
  · have hrun := runTokens_congr fun t reached hreaches => h t reached ⟨hfits, hreaches⟩
    rw [runText_eq hfits, runText_eq hfits, hrun]
  · rw [runText_refused hfits, runText_refused hfits]

end

/-! ## Evaluations -/

namespace Calculator

/-- Registering operators changes nothing but the table. -/
theorem foldl_register (c : Calculator) (ops : List Operator) :
    ops.foldl register c = { c with table := c.table.registerAll ops } := by
  induction ops generalizing c with
  | nil => rfl
  | cons op ops ih =>
    rw [List.foldl_cons, ih]
    rfl

/-- A text comes to the same end, by the same tokens and in the same state, and nothing but the
table tells the two calculators apart afterwards. -/
structure EvaluatesAlike (c other : Calculator) (text : String) (mustExist : Bool) : Prop where
  run : (other.evaluate text mustExist).1 = (c.evaluate text mustExist).1
  after : (other.evaluate text mustExist).2
    = { (c.evaluate text mustExist).2 with table := other.table }

theorem evaluatesAlike_of_find? {c : Calculator} {ops : List Operator} {text : String}
    {mustExist : Bool}
    (h : ∀ t ∈ (Lexer.start text).drain.tokens, t.kind = .word → t.text ≠ "[" → t.text ≠ "]" →
      ¬c.table.IsNew ops t.text) :
    c.EvaluatesAlike (ops.foldl register c) text mustExist := by
  have hrun : runText c.table c.config.capacity mustExist text c.machine
      = runText (c.table.registerAll ops) c.config.capacity mustExist text c.machine := by
    refine runText_congr fun t reached hreaches hkind hopen hclose => ?_
    have hnew := h t hreaches.reaches.mem hkind hopen hclose
    rw [OperatorTable.find?_registerAll_of_not_new hnew]
  rw [foldl_register]
  constructor
  · simp only [evaluate, hrun]
  · simp only [evaluate, hrun]

end Calculator

/-- **Operators are only added.** Let any operators be registered on top of a table. A text none of
whose words, brackets apart, is a new name among them evaluates as before: with the same result, the
same final state and the same records. If all of them are registered under names that were taken,
whatever their arities and bodies, then this is so for every text. -/
theorem evaluate_registerAll (c : Calculator) (ops : List Operator) :
    let extended := ops.foldl Calculator.register c
    (∀ text mustExist,
      (∀ t ∈ (Lexer.start text).drain.tokens, t.kind = .word → t.text ≠ "[" → t.text ≠ "]" →
        ¬c.table.IsNew ops t.text) →
      c.EvaluatesAlike extended text mustExist) ∧
    ((∀ op ∈ ops, op.name ∈ c.table.names) →
      ∀ text mustExist, c.EvaluatesAlike extended text mustExist) := by
  intro extended
  refine ⟨fun text mustExist => Calculator.evaluatesAlike_of_find?, fun hall text mustExist => ?_⟩
  apply Calculator.evaluatesAlike_of_find?
  rintro t - - - - hnew
  obtain ⟨op, hop, hname⟩ := List.mem_map.1 hnew.taken
  have hfree := hnew.free
  rw [← hname] at hfree
  exact hfree (hall op hop)

/-- A second `dup`, an operator by the name of a bracket and a new name: the variable `x` and the
brackets keep their meaning, and the unknown word at the end is as unknown as before. -/
theorem evaluate_registerAll_brackets :
    let c := (Calculator.new {}).define "x" (.integer 1)
    let ops : List Operator := [⟨"dup", 9, HostOperator.cannotContinue.body⟩,
      ⟨"[", 0, HostOperator.closeSegment.body⟩, ⟨"new", 0, HostOperator.pushNull.body⟩]
    let text := "[ x dup ] y"
    let extended := ops.foldl Calculator.register c
    (∀ t ∈ (Lexer.start text).drain.tokens, t.kind = .word → t.text ≠ "[" → t.text ≠ "]" →
      ¬c.table.IsNew ops t.text) ∧
      c.EvaluatesAlike extended text false ∧
      (extended.evaluate text false).1.failure
        = some (.atOffset (.processing .unknownOperator) 10) ∧
      (∀ op ∈ ops.take 1, op.name ∈ c.table.names) ∧
      ∀ text mustExist,
        c.EvaluatesAlike ((ops.take 1).foldl Calculator.register c) text mustExist := by
  intro c ops text extended
  have hfits : text.utf8ByteSize ≤ c.config.capacity := by decide
  have hdrain : (Lexer.start text).drain =
      ⟨[⟨.word, "[", 0⟩, ⟨.word, "x", 2⟩, ⟨.word, "dup", 4⟩, ⟨.word, "]", 8⟩, ⟨.word, "y", 10⟩],
        none, ⟨⟨11, []⟩, true⟩⟩ := by cbv
  have hwords : ∀ t ∈ (Lexer.start text).drain.tokens, t.kind = .word → t.text ≠ "[" →
      t.text ≠ "]" → ¬c.table.IsNew ops t.text := by
    rw [hdrain]
    intro t ht _ hopen hclose hnew
    have htaken := hnew.taken
    have hfree := hnew.free
    simp only [List.mem_cons, List.not_mem_nil, or_false] at ht
    rcases ht with rfl | rfl | rfl | rfl | rfl
    · exact hopen rfl
    · exact absurd htaken (by decide)
    · exact hfree (by decide)
    · exact hclose rfl
    · exact absurd htaken (by decide)
  have hfails : (c.evaluate text false).1.failure
      = some (.atOffset (.processing .unknownOperator) 10) := by
    rw [Calculator.failure_evaluate, runText_eq hfits, hdrain]
    rfl
  have hsame := (evaluate_registerAll c ops).1 text false hwords
  have htaken : ∀ op ∈ ops.take 1, op.name ∈ c.table.names := by
    intro op hop
    obtain rfl := List.mem_singleton.1 hop
    decide
  refine ⟨hwords, hsame, ?_, htaken, (evaluate_registerAll c (ops.take 1)).2 htaken⟩
  rw [hsame.run]
  exact hfails

end ReversePolish
