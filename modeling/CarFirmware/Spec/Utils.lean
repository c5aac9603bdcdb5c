import Mathlib.Data.Rat.Floor

/-! `utils.c`: the command parser, the beat, and the command loop that the note,
motor and light tasks share. -/

namespace Car

/-- A NUL-terminated string: the characters before the NUL. -/
abbrev CStr := List Char

/-- One of the two search loops of `parse_cmd`: where the index stopped, and
whether it stopped at `c` rather than at the NUL. -/
def search (c : Char) : CStr → ℕ × Bool
  | [] => (0, false)
  | x :: xs => if x = c then (0, true) else ((search c xs).1 + 1, (search c xs).2)

def isspace (c : Char) : Bool := c = ' ' || (9 ≤ c.toNat && c.toNat ≤ 13)

def isdigit (c : Char) : Bool := 48 ≤ c.toNat && c.toNat ≤ 57

/-- The value of the leading digits. -/
def digits (s : CStr) : ℕ :=
  (s.takeWhile isdigit).foldl (fun n c => 10 * n + (c.toNat - 48)) 0

/-- A 32-bit `long` saturates. -/
def clamp32 (n : ℤ) : ℤ := max (-2 ^ 31) (min n (2 ^ 31 - 1))

def signed : CStr → ℤ
  | [] => 0
  | c :: t =>
    if c = '-' then clamp32 (-(digits t : ℤ))
    else if c = '+' then clamp32 (digits t)
    else clamp32 (digits (c :: t))

/-- `atoi` of the C library: blanks, a sign, digits; whatever follows is ignored. -/
def atoi (s : CStr) : ℤ := signed (s.dropWhile isspace)

/-- A command: the text written to `code` and the value written to `beat`. -/
structure Cmd where
  code : CStr
  beat : ℤ
  deriving DecidableEq

structure Parsed extends Cmd where
  pos : ℕ
  deriving DecidableEq

/-- `parse_cmd`; `none` is the return value `-1`, on which nothing is written. -/
def parseCmd (cmds : CStr) : Option Parsed :=
  let comma := search ',' cmds
  let semicolon := search ';' cmds
  if comma.2 = false ∨ semicolon.2 = false ∨ comma.1 = 0 ∨ semicolon.1 = 0 then none
  else if semicolon.1 ≤ comma.1 then none
  else some
    { code := cmds.take comma.1
      beat := atoi (cmds.drop (comma.1 + 1))
      pos := semicolon.1 }

/-- The bytes `parse_cmd` writes through `code`: the text and its NUL. -/
def Parsed.written (r : Parsed) : ℕ := r.code.length + 1

def BEAT_DURATION : ℚ := 6 / 10

def CONFIG_FREERTOS_HZ : ℕ := 100

def pdMsToTicks (ms : ℚ) : ℕ := ⌊ms * CONFIG_FREERTOS_HZ / 1000⌋.toNat

def delaytime (beatCnt : ℤ) : ℚ := beatCnt * BEAT_DURATION * 1000

/-- `code[0] == 'N' && code[1] == 'O'`. -/
def isNo (code : CStr) : Bool := code[0]? = some 'N' && code[1]? = some 'O'

/-- The statements of the command loop of the three tasks: `while(*cmds)`,
`if (!handle->task_run) break;` and the call of `parse_cmd`. -/
inductive CmdPc where
  | loop | test | parse
  deriving DecidableEq

inductive CmdOut where
  | goto (pc : CmdPc)
  | leave
  | exec (c : Cmd) (pos : ℕ)

/-- One statement of the command loop at offset `pos` of the string; `run` is the
value of `task_run` it reads. `exec` carries the advanced pointer. -/
def cmdStep (run : Bool) (s : CStr) (pos : ℕ) : CmdPc → CmdOut
  | .loop => if pos < s.length then .goto .test else .leave
  | .test => if run then .goto .parse else .leave
  | .parse =>
    match parseCmd (s.drop pos) with
    | none => .leave
    | some r => .exec r.toCmd (pos + r.pos + 1)

/-- The command loop alone, commands taken as executed at once. -/
def loopStep (s : CStr) (st : CmdPc × ℕ) (run : Bool) : Option (CmdPc × ℕ) :=
  match cmdStep run s st.2 st.1 with
  | .goto pc => some (pc, st.2)
  | .leave => none
  | .exec _ pos => some (.loop, pos)

/-- The undisturbed loop (`task_run` stays true): the commands it executes, `none`
if it has not left the loop within `fuel` statements. -/
def play (s : CStr) : ℕ → CmdPc → ℕ → Option (List Cmd)
  | 0, _, _ => none
  | fuel + 1, pc, pos =>
    match cmdStep true s pos pc with
    | .goto pc' => play s fuel pc' pos
    | .leave => some []
    | .exec c pos' => (play s fuel .loop pos').map (c :: ·)

end Car
