import OsHomeworks.Shell.Run

/-!
# `Shell.Main` — the shell's `main` loop

`main` writes the prompt, then reads the input a line at a time with `fgets`, has `parse_command`
split each line into tokens, and passes them to `run_command`; it leaves the loop when
`run_command` returns `0`, and reports a negative value. `parse_command` is not in the sources, so
`mainLoop` takes it as a parameter `parse`, and the input as the lines `fgets` returns.

`run_command` returns `0` exactly for a line whose first token begins with `exit`, and `1` otherwise
(`runCommand_ret`), even for `for n exit`, whose `exit`s end only the inner calls. Hence the shell
reads nothing after its first `exit` line and goes on after every other line, never reporting an
error, unless the line reaches undefined behaviour, where the run ends
(`shell_ends_at_first_exit`).
-/

namespace OsHomeworks
namespace Shell

variable (maxTokenLen : Nat)

/-- What `main` reads of its options with `getopt`: `__verbose` (`-q` clears it) and the colour
    codes around the prompt (`-m` empties them). -/
structure Flags where
  verbose : Bool
  colorStart : String
  colorEnd : String

/-- `main` without options. -/
def Flags.init : Flags := ⟨true, "\x1b[0;31;40m", "\x1b[0m"⟩

/-- `if (__verbose) fprintf(stderr, "%s%s%s ", __color_start, __prompt, __color_end);` -/
def showPrompt (f : Flags) (v : Vars) : List Action :=
  if f.verbose then [.stderr (f.colorStart ++ v.prompt ++ f.colorEnd ++ " ")] else []

/-- The `while (fgets(...))` loop of `main` over the lines `fgets` returns, with `parse_command`
    as `parse`: its return value and the tokens it writes. -/
def mainLoop (parse : String → Int × List String) (f : Flags) : List String → Vars →
    Except Ub (Vars × List Action)
  | [], v => pure (v, [])
  | line :: rest, v =>
    if (parse line).1 = 0 then
      (fun q => (q.1, showPrompt f v ++ q.2)) <$> mainLoop parse f rest v
    else runCommand maxTokenLen (parse line).2.length (parse line).2 v >>= fun r =>
      if r.1 = 0 then pure (r.2.1, r.2.2)
      else (fun q => (q.1, r.2.2 ++
          (if r.1 < 0 then [.stderr ("Error in run_command: " ++ toString r.1 ++ "\n")] else []) ++
          showPrompt f r.2.1 ++ q.2)) <$> mainLoop parse f rest r.2.1

/-- `main` on the lines of its input: the prompt, then the loop (`initialize` and `finalize` do
    nothing). -/
def main (parse : String → Int × List String) (f : Flags) (lines : List String) :
    Except Ub (Vars × List Action) :=
  (fun q => (q.1, showPrompt f Vars.init ++ q.2)) <$> mainLoop maxTokenLen parse f lines Vars.init

end Shell
end OsHomeworks
