import ReversePolish.Proofs.Evaluation.Append
import ReversePolish.Proofs.Evaluation.Executed
import ReversePolish.Proofs.Operator.Local
/-!
# A text in brackets

A text in brackets does on top of any stack what the text alone does on an empty one: it leaves the
same slots, with their count on top, and the same variables, and does not touch the slots below.

A run reaches below the segment in which it begins only by closing it, and a run that begins with
that segment alone and succeeds has not done so, because there the closing bracket would have
failed. So every step of such a run can be taken with more segments parked below
(`Machine.onto`): operators do not see them, an opening bracket parks one more on top of them, and a
closing bracket takes back one that the run itself has parked.
-/

namespace ReversePolish

/-! ## More segments below -/

/-- The state with segments parked below those that are parked already. -/
def Machine.onto (s : Machine) (base : List (List Slot)) : Machine :=
  s.withParked (s.stack.parked ++ base)

namespace Effect

/-- A local effect does not move the parked segments, however many there are. -/
theorem Local.run_onto {e : Effect Unit} (he : e.Local) {s s' : Machine}
    (h : e.run s = .ok () s') (base : List (List Slot)) :
    e.run (s.onto base) = .ok () (s'.onto base) := by
  have hparked : s'.stack.parked = s.stack.parked := by
    have hsame := he s s.stack.parked
    rw [Machine.withParked_parked, h] at hsame
    exact congrArg (fun r => r.stack.parked) (EStateM.Result.ok.inj hsame).2
  rw [Machine.onto, he, h, ← hparked]
  rfl

/-- A segment that is closed takes none of those further below with it. -/
theorem run_closeSegment_onto {s s' : Machine} (h : closeSegment.run s = .ok () s')
    (base : List (List Slot)) : closeSegment.run (s.onto base) = .ok () (s'.onto base) := by
  cases hparked : s.stack.parked with
  | nil =>
    simp only [closeSegment, run_ofStep, Stack.closeSegment, hparked] at h
    cases h
  | cons parent parked =>
    have honto : (s.onto base).stack.parked = parent :: (parked ++ base) := by
      rw [Machine.onto, Machine.parked_withParked, hparked, List.cons_append]
    rw [run_closeSegment hparked] at h
    cases h
    exact run_closeSegment honto

theorem local_failOnErrorValue : Local failOnErrorValue := by
  refine .get (fun _ _ => rfl) fun s => ?_
  split
  · exact .throw _
  · exact .pure _

end Effect

section

variable {lib : ElementaryFunctions} {mustExist : Bool} {s s' : Machine}

/-- A word is local unless it is a bracket. -/
theorem local_executeWord {word : String} (hopen : word ≠ "[") (hclose : word ≠ "]") :
    (executeWord (.standard lib) word).Local := by
  unfold executeWord
  rw [if_neg hopen, if_neg hclose]
  split
  · next op hoperator =>
    exact .bind (Operator.local_of_find? hoperator) fun _ => Effect.local_failOnErrorValue
  · exact .get (fun _ _ => rfl) fun _ => .ite (.refer _ _) (.ite (.throw _) (.throw _))

/-- **A token that is executed** is executed in the same way with more segments below. -/
theorem run_execute_onto {t : Token} (h : (execute (.standard lib) mustExist t).run s = .ok () s')
    (base : List (List Slot)) :
    (execute (.standard lib) mustExist t).run (s.onto base) = .ok () (s'.onto base) := by
  unfold execute at h ⊢
  split at h
  · exact (Effect.Local.push _).run_onto h base
  · exact (Effect.Local.push _).run_onto h base
  · exact (Effect.Local.refer _ _).run_onto h base
  · exact (Effect.Local.refer _ _).run_onto h base
  · by_cases hopen : t.text = "["
    · rw [hopen] at h ⊢
      cases h
      rfl
    · by_cases hclose : t.text = "]"
      · rw [hclose] at h ⊢
        exact Effect.run_closeSegment_onto h base
      · exact (local_executeWord hopen hclose).run_onto h base

/-- A run that succeeds is the same run with more segments below. -/
theorem runTokens_onto {tokens : List Token}
    (h : (runTokens (.standard lib) mustExist tokens s).failure = none) (base : List (List Slot)) :
    (runTokens (.standard lib) mustExist tokens (s.onto base)).failure = none ∧
      (runTokens (.standard lib) mustExist tokens (s.onto base)).machine
        = (runTokens (.standard lib) mustExist tokens s).machine.onto base := by
  induction tokens generalizing s with
  | nil => exact ⟨rfl, rfl⟩
  | cons t tokens ih =>
    simp only [runTokens] at h ⊢
    cases ht : (execute (.standard lib) mustExist t).run s with
    | error failure final =>
      rw [ht] at h
      cases h
    | ok _ reached =>
      rw [ht] at h
      rw [run_execute_onto ht]
      exact ih h

theorem runText_onto {capacity : Nat} {text : String}
    (h : (runText (.standard lib) capacity mustExist text s).failure = none)
    (base : List (List Slot)) :
    (runText (.standard lib) capacity mustExist text (s.onto base)).failure = none ∧
      (runText (.standard lib) capacity mustExist text (s.onto base)).machine
        = (runText (.standard lib) capacity mustExist text s).machine.onto base := by
  unfold runText at h ⊢
  split at h
  · cases h
  · next lexer hlexer =>
    obtain ⟨hrun, hrefusal⟩ := Option.or_eq_none_iff.1 h
    obtain ⟨hfailure, hmachine⟩ := runTokens_onto hrun base
    exact ⟨Option.or_eq_none_iff.2 ⟨hfailure, hrefusal⟩, hmachine⟩

end

/-! ## Brackets around a text -/

section

variable {table : OperatorTable} {capacity : Nat} {mustExist : Bool} {s : Machine}

variable (table mustExist s) in
theorem runText_open (h : 1 ≤ capacity) :
    (runText table capacity mustExist "[" s).failure = none ∧
      (runText table capacity mustExist "[" s).machine
        = { s with stack := s.stack.openSegment } := by
  have hlexer : (Lexer.start "[").drain = ⟨[⟨.word, "[", 0⟩], none, ⟨⟨1, []⟩, true⟩⟩ := by cbv
  have htokens : (Lexer.start "[").drain.tokens = [⟨.word, "[", 0⟩] := by rw [hlexer]
  exact runText_of_token h htokens (by rw [hlexer]) rfl

variable (table mustExist) in
theorem runText_close (h : 1 ≤ capacity) {parent : List Slot} {parked : List (List Slot)}
    (hparked : s.stack.parked = parent :: parked) :
    (runText table capacity mustExist "]" s).failure = none ∧
      (runText table capacity mustExist "]" s).machine = { s with
        stack := ⟨.value (.unsigned (UInt64.ofNat s.stack.size)) :: s.stack.active ++ parent,
          parked⟩ } := by
  have hlexer : (Lexer.start "]").drain = ⟨[⟨.word, "]", 0⟩], none, ⟨⟨1, []⟩, true⟩⟩ := by cbv
  have htokens : (Lexer.start "]").drain.tokens = [⟨.word, "]", 0⟩] := by rw [hlexer]
  exact runText_of_token h htokens (by rw [hlexer]) (Effect.run_closeSegment hparked)

/-- Two texts that come to their ends come to an end together. -/
theorem runText_append_ends {front back : String} {w : Char} (hw : Text.isBlank w = true)
    (hlength : (front.push w ++ back).utf8ByteSize ≤ capacity)
    (hfront : (runText table capacity mustExist front s).failure = none)
    (hback : (runText table capacity mustExist back
      (runText table capacity mustExist front s).machine).failure = none) :
    (runText table capacity mustExist (front.push w ++ back) s).failure = none ∧
      (runText table capacity mustExist (front.push w ++ back) s).machine
        = (runText table capacity mustExist back
            (runText table capacity mustExist front s).machine).machine := by
  rw [runText_append hw hlength hfront, Run.andThen_of_none hfront]
  exact ⟨by simp only [Run.shift, hback]; rfl, rfl⟩

end

variable {lib : ElementaryFunctions} {capacity : Nat} {mustExist : Bool} {s : Machine}

/-- **Nesting is compositional.** A text that comes to its end on an empty stack, and leaves one
segment of `slots` there, comes to its end in brackets on any stack. It leaves the same slots with
their count on top of the active segment, the segments below as they were, and the registry and the
cells that it leaves on the empty stack. -/
theorem runText_bracketed {text : String} {slots : List Slot} (hroot : s.stack = {})
    (hends : (runText (.standard lib) capacity mustExist text s).failure = none)
    (hslots : (runText (.standard lib) capacity mustExist text s).machine.stack = ⟨slots, []⟩)
    (hlength : ("[ " ++ text ++ " ]").utf8ByteSize ≤ capacity) (active : List Slot)
    (parked : List (List Slot)) :
    let alone := runText (.standard lib) capacity mustExist text s
    let nested := runText (.standard lib) capacity mustExist ("[ " ++ text ++ " ]")
      { s with stack := ⟨active, parked⟩ }
    nested.failure = none ∧
      nested.machine = { alone.machine with
        stack := ⟨.value (.unsigned (UInt64.ofNat slots.length)) :: slots ++ active, parked⟩ } := by
  intro alone nested
  have htext : "[ " ++ text ++ " ]" = "[".push ' ' ++ (text.push ' ' ++ "]") :=
    String.toList_inj.1 (by simp)
  have hblank : Text.isBlank ' ' = true := by decide
  rw [htext] at hlength
  obtain ⟨hone, hrest⟩ := fits_of_append hlength
  have hroom : 1 ≤ capacity := hone
  -- the opening bracket
  obtain ⟨hopen, hopened⟩ := runText_open (.standard lib) mustExist
    { s with stack := ⟨active, parked⟩ } hroom
  have honto : ({ s with stack := Stack.openSegment ⟨active, parked⟩ } : Machine)
      = s.onto (active :: parked) := by
    simp only [Machine.onto, Machine.withParked, Stack.withParked, hroot, Stack.openSegment]
    rfl
  rw [honto] at hopened
  -- the text itself
  obtain ⟨hbody, hreached⟩ := runText_onto hends (active :: parked)
  -- the closing bracket
  have hparked : (alone.machine.onto (active :: parked)).stack.parked = active :: parked := by
    simp only [alone, Machine.onto, Machine.parked_withParked, hslots, List.nil_append]
  obtain ⟨hclose, hclosed⟩ := runText_close (.standard lib) mustExist hroom hparked
  rw [← hreached] at hclose hclosed
  obtain ⟨hinside, hleft⟩ := runText_append_ends hblank hrest hbody hclose
  rw [← hopened] at hinside hleft
  obtain ⟨hwhole, hfinal⟩ := runText_append_ends hblank hlength hopen hinside
  rw [← htext] at hwhole hfinal
  refine ⟨hwhole, ?_⟩
  rw [hfinal, hleft, hopened, hclosed, hreached]
  simp only [alone, Machine.onto, Machine.withParked, Stack.withParked, Stack.size, hslots]

/-- Brackets in brackets, on a stack that has a segment parked. -/
theorem runText_bracketed_twice :
    let alone := runText (.standard .standard) 256 false "7i [ depth ] drop" {}
    let nested := runText (.standard .standard) 256 false ("[ " ++ "7i [ depth ] drop" ++ " ]")
      { stack := ⟨[.value .null], [[.value (.boolean true)]]⟩ }
    alone.failure = none ∧
      alone.machine.stack = ⟨[.value (.unsigned 0), .value (.integer 7)], []⟩ ∧
      ("[ " ++ "7i [ depth ] drop" ++ " ]").utf8ByteSize ≤ 256 ∧
      nested.failure = none ∧
      nested.machine.stack = ⟨[.value (.unsigned 2), .value (.unsigned 0), .value (.integer 7),
        .value .null], [[.value (.boolean true)]]⟩ := by
  intro alone nested
  have hfits : Lexer.ofText "7i [ depth ] drop" 256
      = .ok ⟨⟨0, "7i [ depth ] drop".toList⟩, false⟩ := if_neg (by decide)
  have hdrain : Lexer.drain ⟨⟨0, "7i [ depth ] drop".toList⟩, false⟩ =
      ⟨[⟨.number (.integer 7), "7i", 0⟩, ⟨.word, "[", 3⟩, ⟨.word, "depth", 5⟩, ⟨.word, "]", 11⟩,
        ⟨.word, "drop", 13⟩], none, ⟨⟨17, []⟩, true⟩⟩ := by cbv
  have hends : alone.failure = none := by
    simp only [alone, runText, hfits, hdrain]
    rfl
  have hslots : alone.machine.stack = ⟨[.value (.unsigned 0), .value (.integer 7)], []⟩ := by
    simp only [alone, runText, hfits, hdrain]
    rfl
  have hlength : ("[ " ++ "7i [ depth ] drop" ++ " ]").utf8ByteSize ≤ 256 := by decide
  obtain ⟨hnested, hmachine⟩ := runText_bracketed (s := {}) rfl hends hslots hlength
    [.value .null] [[.value (.boolean true)]]
  exact ⟨hends, hslots, hlength, hnested, congrArg Machine.stack hmachine⟩

end ReversePolish
