import Lox.Session

/-!
# Lines at a prompt

A prompt is a machine that rests between two demands. It knows the answers still
to come, how many lines it has asked for, and whether one was missing; it does not
know what came of the lines before. Each demand for an outcome therefore asks for
one line and runs it as if it were alone, an error on one line does nothing to the
next, and behind the first missing line nothing happens any more.
-/
namespace Lox.Prompt

/-- The prompt that `n` demands leave. -/
def after : Nat → Prompt → Prompt
  | 0, p => p
  | n + 1, p => after n p.demand.2

theorem after_succ (n : Nat) (p : Prompt) : after (n + 1) p = (after n p).demand.2 := by
  induction n generalizing p with
  | zero => rfl
  | succ n ih => exact ih p.demand.2

theorem demand_of_ended {p : Prompt} (h : p.ended = true) :
    p.demand = (⟨none, p.reads, []⟩, p) := by
  rw [demand, if_pos h]

/-- A turn is what the next demand gives, as long as the prompt is not over. -/
theorem play_at {n i : Nat} {p : Prompt} (hi : i < n) (h : ∀ j ≤ i, (after j p).ended = false) :
    (play n p)[i]? = some (after i p).demand.1 := by
  induction n generalizing i p with
  | zero => exact absurd hi (Nat.not_lt_zero i)
  | succ n ih =>
      have hopen : p.ended = false := h 0 (Nat.zero_le i)
      rw [play, hopen]
      cases i with
      | zero => rfl
      | succ i =>
          apply ih (Nat.lt_of_succ_lt_succ hi)
          intro j hj
          exact h (j + 1) (Nat.succ_le_succ hj)

/-- The turn in which `line` is the last of `reads` lines asked for. -/
def turnOf (reads : Nat) (line : String) : Turn :=
  ⟨some (Reporter.fresh.run line).value, reads, (Reporter.fresh.run line).events⟩

section
variable (lines : List String) (rest : List (Option String))

/-- Up to the first missing line every demand takes one answer. -/
theorem after_start {i : Nat} (hi : i ≤ lines.length) :
    after i (start (lines.map some ++ none :: rest)) =
      ⟨(lines.drop i).map some ++ none :: rest, i, false⟩ := by
  induction i with
  | zero => rfl
  | succ i ih =>
      rw [after_succ, ih (Nat.le_of_succ_le hi), List.drop_eq_getElem_cons hi]
      rfl

theorem demand_line {i : Nat} {line : String} (h : lines[i]? = some line) :
    (after i (start (lines.map some ++ none :: rest))).demand.1 = turnOf (i + 1) line := by
  obtain ⟨hi, rfl⟩ := List.getElem?_eq_some_iff.mp h
  rw [after_start lines rest (Nat.le_of_lt hi), List.drop_eq_getElem_cons hi]
  rfl

/-- The first missing line is asked for, and nothing behind it. -/
theorem demand_missing :
    (after lines.length (start (lines.map some ++ none :: rest))).demand =
      (⟨none, lines.length + 1, []⟩, ⟨rest, lines.length + 1, true⟩) := by
  rw [after_start lines rest (Nat.le_refl _), List.drop_length]
  rfl

theorem after_missing (n : Nat) :
    after (lines.length + 1 + n) (start (lines.map some ++ none :: rest)) =
      ⟨rest, lines.length + 1, true⟩ := by
  induction n with
  | zero => rw [Nat.add_zero, after_succ, demand_missing]
  | succ n ih => rw [← Nat.add_assoc, after_succ, ih, demand_of_ended rfl]

theorem length_play (n reads : Nat) :
    (play n ⟨lines.map some ++ none :: rest, reads, false⟩).length = min n (lines.length + 1) := by
  induction lines generalizing n reads with
  | nil =>
      cases n with
      | zero => rfl
      | succ n =>
          -- The turn without an outcome is the last one.
          cases n <;> rfl
  | cons line lines ih =>
      cases n with
      | zero => rfl
      | succ n =>
          have htail := ih n (reads + 1)
          rw [List.length_cons, Nat.succ_min_succ, ← htail]
          rfl

end

/-- At a prompt over some lines, behind which one is missing, the outcome of a line
and what is seen meanwhile are those of a run of this line by itself. A line is asked
for only when its outcome is demanded. Once the missing line was asked for, further
demands ask for nothing and change nothing. -/
theorem prompt_runs_lines_apart (lines : List String) (rest : List (Option String)) (n : Nat) :
    (turns n 0 (lines.map some ++ none :: rest)).length = min n (lines.length + 1) ∧
      (∀ i line, i < n → lines[i]? = some line →
        (turns n 0 (lines.map some ++ none :: rest))[i]? =
            some ⟨some (Reporter.fresh.run line).value, i + 1, (Reporter.fresh.run line).events⟩ ∧
          after (i + 1) (start (lines.map some ++ none :: rest)) =
            ⟨(lines.drop (i + 1)).map some ++ none :: rest, i + 1, false⟩) ∧
      (lines.length < n →
        (turns n 0 (lines.map some ++ none :: rest))[lines.length]? =
            some ⟨none, lines.length + 1, []⟩ ∧
          after n (start (lines.map some ++ none :: rest)) = ⟨rest, lines.length + 1, true⟩ ∧
          (after n (start (lines.map some ++ none :: rest))).demand =
            (⟨none, lines.length + 1, []⟩, ⟨rest, lines.length + 1, true⟩)) := by
  have hopen {i : Nat} (hi : i ≤ lines.length) : ∀ j ≤ i,
      (after j (start (lines.map some ++ none :: rest))).ended = false := by
    intro j hj
    rw [after_start lines rest (Nat.le_trans hj hi)]
  refine ⟨length_play lines rest n 0, ?_, ?_⟩
  · intro i line hi hline
    have hlt : i < lines.length := (List.getElem?_eq_some_iff.mp hline).choose
    constructor
    · exact (play_at hi (hopen (Nat.le_of_lt hlt))).trans
        (congrArg some (demand_line lines rest hline))
    · exact after_start lines rest hlt
  · intro hn
    obtain ⟨m, rfl⟩ := Nat.exists_eq_add_of_lt hn
    have hended := after_missing lines rest m
    rw [Nat.add_right_comm] at hended
    refine ⟨?_, hended, ?_⟩
    · refine (play_at hn (hopen (Nat.le_refl _))).trans ?_
      rw [demand_missing]
    · rw [hended, demand_of_ended rfl]

end Lox.Prompt
