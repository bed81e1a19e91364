import OsHomeworks.Shell.Run

/-!
# `Shell.For` — what a nest of `for`s does

`for n c ...` loops `for_loop` over `run_command`, so `for n₁ for n₂ ... for nₖ c a₁ ... aₘ` is a
nest of `k` loops around one command. This module says what the nest does.

* **Repetition.** `repeatRun k run` is a command run `k` times in a row, each run from the
  variables the last one left: what a loop of `k` turns does with its body. `for_loop(i, ...)` from
  turn `j` is `repeatRun (i - j)` of its body (`forLoop_eq_repeatRun`), and `k` turns of `m` turns
  are `k * m` turns (`repeatRun_mul`).
* **Nesting.** `for n₁ ... for nₖ c ...` returns `1` after running `c ...` the product of the
  `max(nᵢ, 0)` times (`runCommand_forTokens`), for any `c` but `for`. Every run reads the same tokens
  `c a₁ ... aₘ`: `run_command` and `for_loop` both take `2` off `nr_tokens`, but only `run_command`
  moves the token pointer, and only `for` reads `nr_tokens`.
* **One command.** With `runCommand_once`, a command other than `exit` does one thing per run, the
  same thing each time (`for_runs_command_product_times`); `prompt` and `cd` without an argument
  read `NULL` instead, and `prompt` with a text too long for `__prompt` overflows it.
-/

namespace OsHomeworks
namespace Shell

variable (maxTokenLen : Nat)

/-! ## Repetition -/

/-- `run` run `k` times in a row, each time from the variables the last run left, its return value
    dropped: what a loop of `k` turns does with its body. -/
def repeatRun : Nat → (Vars → Except Ub (Int × Vars × List Action)) → Vars →
    Except Ub (Vars × List Action)
  | 0, _, v => pure (v, [])
  | k + 1, run, v => run v >>= fun r => (fun q => (q.1, r.2.2 ++ q.2)) <$> repeatRun k run r.2.1

/-- `for_loop(i, nr_tokens, tokens)` from turn `j` runs its body `max(i - j, 0)` times. -/
theorem forLoop_eq_repeatRun (i nr : Int) (toks : List String) (j : Int) (v : Vars) :
    forLoop maxTokenLen i nr toks j v =
      repeatRun (i - j).toNat (runCommand maxTokenLen (nr - 2) toks) v := by
  generalize h : (i - j).toNat = k
  induction k generalizing j v with
  | zero => rw [forLoop_of_le _ (by omega)]; rfl
  | succ k ih =>
    rw [forLoop_of_lt _ (by omega), repeatRun]
    congr 1; funext r
    rw [ih (j + 1) _ (by omega)]

theorem repeatRun_add (m k : Nat) (run : Vars → Except Ub (Int × Vars × List Action)) (v : Vars) :
    repeatRun (m + k) run v = repeatRun m run v >>= fun p =>
      (fun q => (q.1, p.2 ++ q.2)) <$> repeatRun k run p.1 := by
  induction m generalizing v with
  | zero => simp [repeatRun]
  | succ m ih =>
    rw [Nat.succ_add, repeatRun, repeatRun]
    simp only [ih, map_bind, Functor.map_map, bind_assoc, bind_map_left, List.append_assoc]

/-- A loop of `k` turns around a loop of `m` turns runs the inner body `k * m` times. -/
theorem repeatRun_mul (k m : Nat) (x : Int) (run : Vars → Except Ub (Int × Vars × List Action))
    (v : Vars) :
    repeatRun k (fun w => (fun q => (x, q)) <$> repeatRun m run w) v = repeatRun (k * m) run v := by
  induction k generalizing v with
  | zero => simp [repeatRun]
  | succ k ih =>
    rw [repeatRun, Nat.succ_mul, Nat.add_comm, repeatRun_add]
    simp only [ih, bind_map_left]

/-- A run that leaves the variables as it found them repeats what it did. -/
theorem repeatRun_of_fixed {run : Vars → Except Ub (Int × Vars × List Action)} {u : Vars} {r : Int}
    {out : List Action} (h : run u = .ok (r, u, out)) (k : Nat) :
    repeatRun k run u = .ok (u, (List.replicate k out).flatten) := by
  induction k with
  | zero => rfl
  | succ k ih =>
    rw [repeatRun, h]
    show (fun q => (q.1, out ++ q.2)) <$> repeatRun k run u = _
    rw [ih]; rfl

/-- A run that leads to variables it then leaves alone, doing the same thing from both. -/
theorem repeatRun_of_steady {run : Vars → Except Ub (Int × Vars × List Action)} {v u : Vars}
    {r r' : Int} {out : List Action} (h₁ : run v = .ok (r, u, out)) (h₂ : run u = .ok (r', u, out))
    (k : Nat) : repeatRun k run v = .ok (if k = 0 then v else u, (List.replicate k out).flatten) := by
  cases k with
  | zero => rfl
  | succ k =>
    rw [repeatRun, h₁]
    show (fun q => (q.1, out ++ q.2)) <$> repeatRun k run u = _
    rw [repeatRun_of_fixed h₂]; rfl

theorem repeatRun_of_error {run : Vars → Except Ub (Int × Vars × List Action)} {v : Vars} {e : Ub}
    (h : run v = .error e) (k : Nat) : repeatRun (k + 1) run v = .error e := by
  rw [repeatRun, h]; rfl

/-! ## Nesting -/

/-- The tokens `for n₁ for n₂ ... for nₖ`. -/
def forTokens (ns : List String) : List String := ns.flatMap fun n => ["for", n]

/-- How often `for n₁ ... for nₖ` runs its command: the product of the `max(atoi(nᵢ), 0)`. -/
def forCount (ns : List String) : Nat := (ns.map fun n => (atoi n).toNat).prod

/-- **A nest of `for`s runs its command the product of the counts times**, then returns `1`. -/
theorem runCommand_forTokens (n : String) (ns : List String) {c : String} (args : List String)
    (hfor : c ≠ "for") (nr : Int) (v : Vars) :
    runCommand maxTokenLen nr (forTokens (n :: ns) ++ c :: args) v = (fun r => (1, r)) <$>
      repeatRun (forCount (n :: ns)) (runCommand maxTokenLen nr (c :: args)) v := by
  induction ns generalizing n nr v with
  | nil =>
    rw [forTokens, List.flatMap_cons, List.flatMap_nil, List.append_nil, List.cons_append,
      List.cons_append, List.nil_append, runCommand_for, forLoop_eq_repeatRun,
      runCommand_nrTokens _ args hfor (nr - 2 - 2) nr]
    simp [forCount]
  | cons n' ns ih =>
    have hin : runCommand maxTokenLen (nr - 2 - 2) (forTokens (n' :: ns) ++ c :: args) = fun w =>
        (fun r => (1, r)) <$>
          repeatRun (forCount (n' :: ns)) (runCommand maxTokenLen nr (c :: args)) w := by
      funext w; rw [ih, runCommand_nrTokens _ args hfor (nr - 2 - 2) nr]
    rw [show forTokens (n :: n' :: ns) ++ c :: args =
        "for" :: n :: (forTokens (n' :: ns) ++ c :: args) by simp [forTokens],
      runCommand_for, forLoop_eq_repeatRun, hin, repeatRun_mul]
    simp [forCount]

/-- A command that reaches undefined behaviour from any variables does so in a nest of `for`s
    unless the nest runs it no time. -/
theorem runCommand_forTokens_of_error (ns : List String) {c : String} (args : List String)
    (hfor : c ≠ "for") (nr : Int) {e : Ub}
    (herr : ∀ w, runCommand maxTokenLen nr (c :: args) w = .error e)
    (v : Vars) : runCommand maxTokenLen nr (forTokens ns ++ c :: args) v =
      if forCount ns = 0 then .ok (1, v, []) else .error e := by
  cases ns with
  | nil => simpa [forTokens, forCount] using herr v
  | cons n ns =>
    rw [runCommand_forTokens _ n ns args hfor]
    cases forCount (n :: ns) with
    | zero => rfl
    | succ k => rw [repeatRun_of_error (herr v)]; rfl

/-- **Nested `for` repeats its command the product of the counts.** For every `k ≥ 0`, counts
    `n₁ ... nₖ` and command `c a₁ ... aₘ` with `c` neither `for` nor beginning with `exit`, from any
    variables: either one run of `c a₁ ... aₘ` returns `1` having done one thing `a`, and
    `for n₁ ... for nₖ c a₁ ... aₘ` returns `1` having done `a` exactly `∏ max(atoi(nᵢ), 0)` times
    (with the variables of one run, or untouched when the product is `0`); or one run reaches
    undefined behaviour, as `prompt` or `cd` with no argument reading `NULL` or as `prompt` with a
    text too long for `__prompt`, and so does the nest unless the product is `0`. -/
theorem for_runs_command_product_times (ns : List String) {c : String} (args : List String)
    (hfor : c ≠ "for") (hexit : strncmpEq c "exit" 4 = false) (nr : Int) (v : Vars) :
    (∃ v' a, runCommand maxTokenLen nr (c :: args) v = .ok (1, v', [a]) ∧
      runCommand maxTokenLen nr (forTokens ns ++ c :: args) v =
        .ok (1, if forCount ns = 0 then v else v', List.replicate (forCount ns) a)) ∨
    (∃ e, ((c = "prompt" ∨ c = "cd") ∧ args = [] ∧ e = .nullDeref ∨
        c = "prompt" ∧ (∃ text rest, args = text :: rest ∧ maxTokenLen ≤ text.utf8ByteSize) ∧
          e = .promptOverflow) ∧
      runCommand maxTokenLen nr (c :: args) v = .error e ∧
      runCommand maxTokenLen nr (forTokens ns ++ c :: args) v =
        if forCount ns = 0 then .ok (1, v, []) else .error e) := by
  rcases runCommand_once maxTokenLen args hfor hexit nr v with
    ⟨v', a, h₁, h₂⟩ | ⟨hc, hargs, herr⟩ | ⟨hc, htext, herr⟩
  · refine .inl ⟨v', a, h₁, ?_⟩
    cases ns with
    | nil => simpa [forTokens, forCount] using h₁
    | cons n ns =>
      rw [runCommand_forTokens _ n ns args hfor, repeatRun_of_steady h₁ h₂]
      simp only [List.flatten_replicate_singleton]; rfl
  · exact .inr ⟨_, .inl ⟨hc, hargs, rfl⟩, herr v,
      runCommand_forTokens_of_error _ ns args hfor nr herr v⟩
  · exact .inr ⟨_, .inr ⟨hc, htext, rfl⟩, herr v,
      runCommand_forTokens_of_error _ ns args hfor nr herr v⟩

theorem for_runs_command_product_times_ls :
    "ls" ≠ "for" ∧ strncmpEq "ls" "exit" 4 = false ∧
    ((∃ v' a, runCommand 64 6 ["ls", "-l"] Vars.init = .ok (1, v', [a]) ∧
      runCommand 64 6 (forTokens ["2", "3"] ++ ["ls", "-l"]) Vars.init =
        .ok (1, if forCount ["2", "3"] = 0 then Vars.init else v',
          List.replicate (forCount ["2", "3"]) a)) ∨
    (∃ e, (("ls" = "prompt" ∨ "ls" = "cd") ∧ ["-l"] = [] ∧ e = .nullDeref ∨
        "ls" = "prompt" ∧ (∃ text rest, ["-l"] = text :: rest ∧ 64 ≤ text.utf8ByteSize) ∧
          e = .promptOverflow) ∧
      runCommand 64 6 ["ls", "-l"] Vars.init = .error e ∧
      runCommand 64 6 (forTokens ["2", "3"] ++ ["ls", "-l"]) Vars.init =
        if forCount ["2", "3"] = 0 then .ok (1, Vars.init, []) else .error e)) :=
  ⟨by decide, by decide,
    for_runs_command_product_times 64 ["2", "3"] ["-l"] (by decide) (by decide) 6 Vars.init⟩

/-- `for 2 prompt`: `run_command` copies from `tokens[1]`, the `NULL` after `prompt`. -/
theorem nested_prompt_reads_null :
    runCommand maxTokenLen 3 ["for", "2", "prompt"] Vars.init = .error .nullDeref := by
  rw [runCommand_for, forLoop_of_lt _ (by decide), runCommand]
  rfl

end Shell
end OsHomeworks
