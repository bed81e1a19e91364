import Mathlib

/-!
# `Shell.Run` — `run_command` and `for_loop` of the shell (`pa1.c`)

`pa1.c` fills in `run_command(nr_tokens, tokens)`, which the shell's `main` calls on each parsed
line. It recognises, by its first token, `exit` (any token beginning with it), the builtins `prompt`,
`cd`, `for` and `timeout`, and otherwise forks and `execvp`s the tokens as a program. `for n c ...`
calls `for_loop(atoi(n), nr_tokens - 2, &tokens[2])`, which runs
`run_command(nr_tokens - 2, tokens)` `n` times: the two functions recurse into each other.

* **Tokens.** The token array, `NULL`-terminated, is the list of its strings; reading past its end
  reads `NULL`, and a builtin that dereferences it is undefined behaviour (`Ub.nullDeref`). A token
  is a C string, so a `String` here holds no `NUL`.
* **`__prompt`** is a `char[MAX_TOKEN_LEN]`; `MAX_TOKEN_LEN` comes from a header that is not in the
  sources, so it is the parameter `maxTokenLen`. A `strcpy` of a text that does not fit with its
  `NUL` is undefined behaviour (`Ub.promptOverflow`).
* **`atoi`** is glibc's: `(int) strtol(s, NULL, 10)`, with a 64-bit `long` clamped at its bounds
  and the conversion to `int` modulo `2 ^ 32`, as GCC defines it.
* **Globals.** `__prompt` and `__timeout` are the shell's variables (`Vars`); `run_command` returns
  them updated.
* **Effects.** Everything else a command does, in order, is an `Action`: the copy into `__prompt`,
  a `chdir`, a line on `stderr`, or the fork and `execvp` of a program.
* **Termination.** `runCommand` and `forLoop` are total: a nested call of `run_command` reads a
  shorter token list, and a loop's remaining count `i - j` falls at each turn.
-/

namespace OsHomeworks
namespace Shell

/-- Undefined behaviour, where the model stops. -/
inductive Ub where
  /-- A read through a `NULL` token. -/
  | nullDeref
  /-- A `strcpy` into `__prompt` past its `MAX_TOKEN_LEN` bytes. -/
  | promptOverflow
  deriving DecidableEq, Repr

/-- The globals `run_command` reads and writes: `__prompt` and `__timeout` (an `unsigned int`). -/
structure Vars where
  prompt : String
  timeout : Nat
  deriving DecidableEq, Repr

/-- `__prompt` and `__timeout` at start-up. -/
def Vars.init : Vars := ⟨"$", 2⟩

/-- What a command does besides writing the shell's variables. -/
inductive Action where
  /-- `strcpy(__prompt, text)`. -/
  | prompt (text : String)
  /-- `chdir(dir)`; `none` is `chdir(getenv("HOME"))`. -/
  | chdir (dir : Option String)
  /-- A line written to `stderr`. -/
  | stderr (text : String)
  /-- `fork()` and `alarm(timeout)`; the child runs `execvp(argv[0], argv)` and the parent waits
      for it with `waitpid` and clears the alarm. -/
  | exec (argv : List String) (timeout : Nat)
  deriving DecidableEq, Repr

/-! ## The C library -/

/-- `strncmp(s, t, n) == 0`: the first `n` characters agree, a string shorter than `n` ending at its
    `NUL`. -/
def strncmpEq (s t : String) (n : Nat) : Bool := s.toList.take n == t.toList.take n

/-- `isspace(c)` in the C locale. -/
def isSpace (c : Char) : Bool :=
  c = ' ' || c = '\t' || c = '\n' || c = '\x0B' || c = '\x0C' || c = '\r'

/-- The value of the decimal digits at the head of `ds`. -/
def digitsValue (ds : List Char) : Nat :=
  (ds.takeWhile Char.isDigit).foldl (fun n d => 10 * n + (d.toNat - '0'.toNat)) 0

/-- The numeral that `strtol` reads in base `10`: white space, an optional sign, and the longest run
    of decimal digits after it; `0` when there is none. -/
def numeralValue (s : String) : Int :=
  match s.toList.dropWhile isSpace with
  | '-' :: ds => -(digitsValue ds : Int)
  | '+' :: ds => digitsValue ds
  | ds => digitsValue ds

/-- `LONG_MIN` and `LONG_MAX` of a 64-bit `long`. -/
def longMin : Int := -9223372036854775808

def longMax : Int := 9223372036854775807

/-- `strtol(s, NULL, 10)`: the numeral's value, `LONG_MIN` or `LONG_MAX` where it is out of range. -/
def strtol (s : String) : Int := max longMin (min longMax (numeralValue s))

/-- `atoi(s)` in glibc: `(int) strtol(s, NULL, 10)`, the conversion to `int` modulo `2 ^ 32`. -/
def atoi (s : String) : Int := (strtol s).bmod (2 ^ 32)

/-- An `int` converted to `unsigned int`: modulo `2^32`. -/
def toUnsigned (i : Int) : Nat := (i % 4294967296).toNat

/-- An `unsigned int` printed with `%d`: read as an `int`. -/
def asInt (u : Nat) : Int := if u < 2147483648 then u else u - 4294967296

/-! ## `pa1.c` -/

/-- `set_timeout(timeout)`: store it in `__timeout` and report it on `stderr`. -/
def setTimeout (timeout : Nat) (v : Vars) : Vars × Action :=
  ({ v with timeout := timeout },
    .stderr (if timeout = 0 then "Timeout is disabled\n"
      else "Timeout is set to " ++ toString (asInt timeout) ++ " second" ++
        (if 2 ≤ timeout then "s" else "") ++ "\n"))

mutual

/-- `run_command(nr_tokens, tokens)` on the shell's variables `v`, with `__prompt` of
    `maxTokenLen` bytes: the value it returns, the variables after it, and what it did. -/
def runCommand (maxTokenLen : Nat) (nrTokens : Int) (tokens : List String) (v : Vars) :
    Except Ub (Int × Vars × List Action) :=
  match tokens with
  | [] => .error .nullDeref
  | t :: rest =>
    if strncmpEq t "exit" 4 then .ok (0, v, [])
    else if t = "prompt" then
      match rest with
      | [] => .error .nullDeref
      | text :: _ =>
        if maxTokenLen ≤ text.utf8ByteSize then .error .promptOverflow
        else .ok (1, { v with prompt := text }, [.prompt text])
    else if t = "cd" then
      match rest with
      | [] => .error .nullDeref
      | dir :: _ => .ok (1, v, [.chdir (if dir = "~" then none else some dir)])
    else if t = "for" then
      match rest with
      | [] => .error .nullDeref
      | n :: toks => do
        let (v', out) ← forLoop maxTokenLen (atoi n) (nrTokens - 2) toks 0 v
        pure (1, v', out)
    else if t = "timeout" then
      match rest with
      | [] => .ok (1, v, [.stderr ("Current timeout is " ++ toString (asInt v.timeout) ++ " second\n")])
      | arg :: _ =>
        .ok (1, (setTimeout (toUnsigned (atoi arg)) v).1, [(setTimeout (toUnsigned (atoi arg)) v).2])
    else .ok (1, v, [.exec tokens v.timeout])
termination_by (tokens.length, 0)

/-- `for_loop(i, nr_tokens, tokens)` from the turn `j` of its loop on: while `j < i`,
    `run_command(nr_tokens - 2, tokens)`, whose return value it drops. -/
def forLoop (maxTokenLen : Nat) (i nrTokens : Int) (tokens : List String) (j : Int) (v : Vars) :
    Except Ub (Vars × List Action) :=
  if j < i then do
    let (_, v₁, out₁) ← runCommand maxTokenLen (nrTokens - 2) tokens v
    let (v₂, out₂) ← forLoop maxTokenLen i nrTokens tokens (j + 1) v₁
    pure (v₂, out₁ ++ out₂)
  else .ok (v, [])
termination_by ((tokens.length, (i - j).toNat + 1) : Nat × Nat)

end

/-! ## What one call does -/

variable (maxTokenLen : Nat)

theorem forLoop_of_lt {i nr j : Int} {toks : List String} {v : Vars} (h : j < i) :
    forLoop maxTokenLen i nr toks j v = runCommand maxTokenLen (nr - 2) toks v >>= fun r =>
      (fun q => (q.1, r.2.2 ++ q.2)) <$> forLoop maxTokenLen i nr toks (j + 1) r.2.1 := by
  rw [forLoop, if_pos h]
  rfl

theorem forLoop_of_le {i nr j : Int} {toks : List String} {v : Vars} (h : i ≤ j) :
    forLoop maxTokenLen i nr toks j v = pure (v, []) := by
  rw [forLoop, if_neg (not_lt.mpr h)]; rfl

/-- `for n ...` returns `1` after the loop. -/
theorem runCommand_for (nr : Int) (n : String) (toks : List String) (v : Vars) :
    runCommand maxTokenLen nr ("for" :: n :: toks) v =
      (fun r => (1, r)) <$> forLoop maxTokenLen (atoi n) (nr - 2) toks 0 v := by
  rw [runCommand]
  simp only [show strncmpEq "for" "exit" 4 = false by decide]
  rfl

/-- Only `for` passes `nr_tokens` on, and nothing reads it: a command other than `for` does not
    depend on it. -/
theorem runCommand_nrTokens {c : String} (args : List String) (hfor : c ≠ "for") (nr nr' : Int) :
    runCommand maxTokenLen nr (c :: args) = runCommand maxTokenLen nr' (c :: args) := by
  funext v
  simp only [runCommand.eq_def, hfor, if_false]

/-- **One run of a command other than `for` and `exit`.** It does exactly one thing and returns
    `1`, and run again from the variables it leaves it does the same thing and leaves them as they
    are; or it is `prompt` or `cd` with no argument, and reads the `NULL` after it; or it is
    `prompt` with a text too long for `__prompt`, and its `strcpy` overflows. -/
theorem runCommand_once {c : String} (args : List String) (hfor : c ≠ "for")
    (hexit : strncmpEq c "exit" 4 = false) (nr : Int) (v : Vars) :
    (∃ v' a, runCommand maxTokenLen nr (c :: args) v = .ok (1, v', [a]) ∧
      runCommand maxTokenLen nr (c :: args) v' = .ok (1, v', [a])) ∨
    ((c = "prompt" ∨ c = "cd") ∧ args = [] ∧
      ∀ w, runCommand maxTokenLen nr (c :: args) w = .error .nullDeref) ∨
    (c = "prompt" ∧ (∃ text rest, args = text :: rest ∧ maxTokenLen ≤ text.utf8ByteSize) ∧
      ∀ w, runCommand maxTokenLen nr (c :: args) w = .error .promptOverflow) := by
  simp only [runCommand.eq_def, hexit, hfor, Bool.false_eq_true, if_false]
  by_cases hp : c = "prompt"
  · simp only [if_pos hp]
    cases args with
    | nil => exact .inr (.inl ⟨.inl hp, rfl, fun _ => rfl⟩)
    | cons text rest =>
      by_cases hlen : maxTokenLen ≤ text.utf8ByteSize
      · exact .inr (.inr ⟨hp, ⟨text, rest, rfl, hlen⟩, fun _ => if_pos hlen⟩)
      · exact .inl ⟨_, _, if_neg hlen, if_neg hlen⟩
  by_cases hcd : c = "cd"
  · simp only [if_neg hp, if_pos hcd]
    cases args with
    | nil => exact .inr (.inl ⟨.inr hcd, rfl, fun _ => rfl⟩)
    | cons dir _ => exact .inl ⟨_, _, rfl, rfl⟩
  simp only [if_neg hp, if_neg hcd]
  by_cases ht : c = "timeout"
  · simp only [if_pos ht]
    cases args with
    | nil => exact .inl ⟨_, _, rfl, rfl⟩
    | cons arg _ => exact .inl ⟨_, _, rfl, rfl⟩
  · simp only [if_neg ht]
    exact .inl ⟨_, _, rfl, rfl⟩

end Shell
end OsHomeworks
